/-
# The verified marker

A restore that reached `external_ready` leaves a signed marker on the remote, once for each
backup: the first operation to get there uploads it, a later one checks what is there.  Rotation
reads the markers with a manifest of its own.

The remote stores an object whole or not at all, and never replaces one.  A run may die at every
call of the remote.  Ed25519 is a parameter, and so is what `str` makes of a float, a list or a
dict.
-/
import ProductPdfQr.Restore.Checkpoint
import ProductPdfQr.BackupRecovery.Generations

namespace ProductPdfQr.Restore.Verified

open Effect Json

/-! ## 1. Signatures -/

/-- Ed25519, and what is relied on: the sizes of its keys and signatures, and that a signature
verifies under the public key of its key. -/
class Ed25519 where
  publicBytes : Bytes → Bytes
  sign : Bytes → Bytes → Bytes
  verify : Bytes → Bytes → Bytes → Bool
  size_publicBytes : ∀ key, key.size = 32 → (publicBytes key).size = 32
  size_sign : ∀ key message, key.size = 32 → (sign key message).size = 64
  verify_sign : ∀ key message, key.size = 32 →
    verify (publicBytes key) (sign key message) message = true

/-- `payload.hex()`. -/
def toHex (payload : Bytes) : String :=
  String.ofList (payload.data.toList.flatMap fun b =>
    [digitChar (b.toNat / 16), digitChar (b.toNat % 16)])

def fromHexDigits? : List Char → Option (List UInt8)
  | [] => some []
  | [_] => none
  | high :: low :: rest => do
    let h ← hexVal? high
    let l ← hexVal? low
    let bytes ← fromHexDigits? rest
    some (UInt8.ofNat (16 * h + l) :: bytes)

/-- `bytes.fromhex`, of a text of hex digits alone. -/
def fromHex? (text : String) : Option Bytes :=
  (fromHexDigits? text.toList).map fun bytes => ⟨bytes.toArray⟩

theorem fromHexDigits?_flatMap (bytes : List UInt8) :
    fromHexDigits? (bytes.flatMap fun b => [digitChar (b.toNat / 16), digitChar (b.toNat % 16)]) =
      some bytes := by
  induction bytes with
  | nil => rfl
  | cons b bytes ih =>
    have hb := b.toNat_lt
    have hbyte : UInt8.ofNat (16 * (b.toNat / 16) + b.toNat % 16) = b := by
      rw [Nat.div_add_mod]
      exact UInt8.ofNat_toNat
    simp only [List.flatMap_cons, List.cons_append, List.nil_append, fromHexDigits?,
      hexVal?_digitChar (show b.toNat / 16 < 16 by omega),
      hexVal?_digitChar (show b.toNat % 16 < 16 by omega), ih]
    simp only [Option.bind_eq_bind, Option.bind_some, hbyte]

theorem fromHex?_toHex (payload : Bytes) : fromHex? (toHex payload) = some payload := by
  rw [fromHex?, toHex, String.toList_ofList, fromHexDigits?_flatMap]
  simp

theorem digitChar_isHexDigit {d : Nat} (h : d < 16) : Text.isHexDigit (digitChar d) = true := by
  have hall : ∀ d : Fin 16, Text.isHexDigit (digitChar d) = true := by decide
  exact hall ⟨d, h⟩

theorem length_toHex (bytes : List UInt8) :
    (bytes.flatMap fun b => [digitChar (b.toNat / 16), digitChar (b.toNat % 16)]).length =
      2 * bytes.length := by
  induction bytes with
  | nil => rfl
  | cons b bytes ih =>
    rw [List.flatMap_cons, List.length_append, ih]
    simp only [List.length_cons, List.length_nil]
    omega

theorem isHex_toHex {payload : Bytes} {n : Nat} (h : payload.size = n) :
    Text.isHex (2 * n) (toHex payload) = true := by
  rw [Text.isHex, toHex, String.toList_ofList, Bool.and_eq_true, decide_eq_true_eq,
    List.all_eq_true]
  constructor
  · rw [length_toHex, Array.length_toList, ← h]
    rfl
  · intro c hc
    obtain ⟨b, -, hb⟩ := List.mem_flatMap.mp hc
    have hlt := b.toNat_lt
    simp only [List.mem_cons, List.not_mem_nil, or_false] at hb
    rcases hb with rfl | rfl <;> exact digitChar_isHexDigit (by omega)

/-! ## 2. Markers -/

/-- `if not c: raise SafetyError(message)`. -/
def check (c : Bool) (message : String) : Except Exn Unit :=
  if c then .ok () else .error (.safety message)

def orRaise {α : Type} (x : Option α) (e : Exn) : Except Exn α :=
  match x with
  | some a => .ok a
  | none => .error e

/-- `str(value)`. -/
def pyStr (repr : Json → String) : Json → String
  | .str s => s
  | .int n => String.ofList (printInt n)
  | .bool true => "True"
  | .bool false => "False"
  | .null => "None"
  | value => repr value

@[simp] theorem pyStr_str (repr : Json → String) (s : String) : pyStr repr (.str s) = s := rfl

def verificationFields : List String :=
  ["schema_version", "backup_id", "restore_operation_id", "environment_id", "verified_at", "rule",
    "restore_history_sha256", "manifest_sha256"]

def verificationRule : String := "remote_download_plus_complete_isolated_restore_only"

section Markers

variable (repr : Json → String)

/-- The loop of the validator over the digests. -/
def checkDigests (verification : Json) : List String → Except Exn Unit
  | [] => .ok ()
  | field :: fields => do
    check (Text.isSha256 (pyStr repr (verification.get field)))
      ("invalid restore verification " ++ field)
    checkDigests verification fields

/-- `_validate_restore_verification_unsigned`. -/
def validateRestoreVerificationUnsigned (verification : Json) : Except Exn Unit := do
  check (verification.hasKeys verificationFields &&
    (verification.get "schema_version").pyEq (.int 1)) "restore verification schema mismatch"
  check (Text.isBackupId (pyStr repr (verification.get "backup_id"))) "invalid backup_id"
  check (Text.hasText (pyStr repr (verification.get "environment_id")))
    "restore verification environment is empty"
  match verification.get "verified_at" with
  | .str text => check (Instant.parseTime? text).isSome "non-canonical completion restore verified_at"
  | _ => .error (.safety "invalid completion restore verified_at")
  check ((verification.get "rule").pyEq (.str verificationRule)) "restore verification rule mismatch"
  checkDigests repr verification
    ["restore_operation_id", "restore_history_sha256", "manifest_sha256"]

variable [Ed25519]

/-- `authenticate_restore_verification`. -/
def authenticateRestoreVerification (verification : Json) (key : Bytes) (keyId : String) :
    Except Exn Json := do
  validateRestoreVerificationUnsigned repr verification
  check (key.size = 32) "restore verification signing key must be exactly 32 bytes"
  check (Text.isSafeId keyId) "invalid restore verification key id"
  check (verification.get? "authentication").isNone "restore verification is already authenticated"
  return verification.set "authentication" (dict [("algorithm", .str "ed25519"),
    ("key_id", .str keyId),
    ("signature", .str (toHex (Ed25519.sign key (canonicalJson verification))))])

/-- `verify_restore_verification`. -/
def verifyRestoreVerification (verification : Json) (key : Bytes) (keyId : String) :
    Except Exn Unit := do
  check (key.size = 32) "restore verification key must be exactly 32 bytes"
  check (Text.isSafeId keyId) "invalid restore verification key id"
  let authentication := verification.get "authentication"
  check (authentication.hasKeys ["algorithm", "key_id", "signature"])
    "restore verification authentication schema mismatch"
  check ((authentication.get "algorithm").pyEq (.str "ed25519") &&
    (authentication.get "key_id").pyEq (.str keyId)) "restore verification authority mismatch"
  match authentication.get "signature" with
  | .str signature => do
    check (Text.isHex 128 signature) "invalid restore verification signature"
    let unsigned := Json.obj (eraseField "authentication" verification.fields)
    validateRestoreVerificationUnsigned repr unsigned
    check ((fromHex? signature).any fun s => Ed25519.verify key s (canonicalJson unsigned))
      "restore verification authentication failed"
  | _ => .error (.safety "invalid restore verification signature")

end Markers

/-! ## 3. The remote -/

inductive RemoteCall
  | keyExists (key : String)
  | readBytes (key : String)
  | uploadStream (content : Bytes) (key : String)

abbrev RemoteCall.Answer : RemoteCall → Type
  | keyExists _ => Bool
  | readBytes _ => Bytes
  | uploadStream _ _ => Unit

/-- The objects, by their keys. -/
abbrev Remote := String → Option Bytes

/-- An object is stored whole, and never over another one. -/
def RemoteCall.serve (remote : Remote) : (c : RemoteCall) → Except Exn c.Answer × Remote
  | .keyExists key => (.ok (remote key).isSome, remote)
  | .readBytes key =>
    match remote key with
    | some content => (.ok content, remote)
    | none => (.error (.safety "remote read failed"), remote)
  | .uploadStream content key =>
    match remote key with
    | some _ => (.error (.safety "immutable remote object already exists"), remote)
    | none => (.ok (), Function.update remote key (some content))

def store : Machine RemoteCall (fun c => Except Exn c.Answer) Remote := ⟨fun c remote => c.serve remote⟩

abbrev RemoteProg := Prog RemoteCall (fun c => Except Exn c.Answer) Exn

/-- One call, raising what it raises. -/
def act (c : RemoteCall) : RemoteProg c.Answer := Prog.perform c >>= Prog.liftExcept

theorem wp_act {c : RemoteCall} {remote remote' : Remote} {result : c.Answer}
    {Q : Post Remote Exn c.Answer} (h : c.serve remote = (.ok result, remote'))
    (hcrashed : Q.crashed remote) (hreturned : Q.returned result remote') :
    (act c).wp store Q remote := by
  rw [act, Prog.wp_bind, Prog.wp_perform]
  refine ⟨hcrashed, Prog.wp_liftExcept.mpr ⟨fun a heq => ?_, fun e heq => ?_⟩⟩
  · obtain rfl := Except.ok.inj (heq.symm.trans (congrArg Prod.fst h))
    exact (congrArg Prod.snd h : (c.serve remote).2 = remote') ▸ hreturned
  · cases heq.symm.trans (congrArg Prod.fst h)

theorem exec_act {α : Type} {c : RemoteCall} {f : c.Answer → RemoteProg α} {n : Nat}
    {remote remote' : Remote} {result : c.Answer} (h : c.serve remote = (.ok result, remote')) :
    (act c >>= f).exec store (n + 1) remote = (f result).exec store n remote' := by
  have hanswer : (c.serve remote).1 = .ok result := congrArg Prod.fst h
  have hstate : (c.serve remote).2 = remote' := congrArg Prod.snd h
  change ((Prog.liftExcept (c.serve remote).1 >>= f).exec store n (c.serve remote).2) = _
  rw [hanswer, hstate]
  rfl

def verifiedKey (pre backupId : String) : String := pre ++ "/verified/" ++ backupId ++ ".json"

/-- A restore verification key and its name. -/
structure Authority where
  key : Bytes
  keyId : String
  key_size : key.size = 32
  keyId_safe : Text.isSafeId keyId = true

section Publication

variable [Sha256] [Ed25519] (repr : Json → String)

/-- `unsigned_verified`. -/
def unsignedVerified (e : RestoreEngine) (backupId : String) (now : Instant)
    (state manifest : Json) : Json :=
  dict [("schema_version", .int 1), ("backup_id", .str backupId),
    ("restore_operation_id", .str e.guard.operationId),
    ("environment_id", .str e.guard.environmentId), ("verified_at", .str now.formatTime),
    ("rule", .str verificationRule),
    ("restore_history_sha256", .str (digestJson (state.get "history"))),
    ("manifest_sha256", .str (digestJson manifest))]

/-- The last part of `external_ready`, from what it read of the checkpoint and the manifest. -/
def publishVerified (a : Authority) (pre : String) (e : RestoreEngine) (backupId : String)
    (now : Instant) (state manifest : Json) : RemoteProg Unit := do
  let unsigned := unsignedVerified e backupId now state manifest
  let key := verifiedKey pre backupId
  let there ← act (.keyExists key)
  if there then do
    let content ← act (.readBytes key)
    let existing ← Prog.liftExcept ((loads content).mapError Exn.loadError)
    Prog.ensure existing.isDict (.safety "restore verification marker is not a JSON object")
    Prog.liftExcept (verifyRestoreVerification repr existing (Ed25519.publicBytes a.key) a.keyId)
    Prog.ensure ((existing.get "backup_id").pyEq (.str backupId) &&
        (existing.get "manifest_sha256").pyEq (unsigned.get "manifest_sha256"))
      (.safety "restore verification marker conflicts with this recovery point")
  else do
    let verified ← Prog.liftExcept (authenticateRestoreVerification repr unsigned a.key a.keyId)
    act (.uploadStream (canonicalJson verified) key)

end Publication

/-! ## 4. The marker of a run -/

theorem check_of_true {c : Bool} (h : c = true) (message : String) :
    check c message = .ok () := if_pos h

theorem eq_obj_of_isDict {j : Json} (h : j.isDict = true) : j = .obj j.fields := by
  cases j with
  | obj fs => rfl
  | _ => cases h

section Markers

variable [Sha256] [Ed25519] {repr : Json → String} {a : Authority} {e : RestoreEngine}
  {backupId : String} {now : Instant} {state manifest : Json}

omit [Ed25519] in
theorem isDict_unsigned (e : RestoreEngine) (backupId : String) (now : Instant)
    (state manifest : Json) : (unsignedVerified e backupId now state manifest).isDict = true :=
  isDict_dict _

omit [Ed25519] in
theorem unsigned_backupId :
    (unsignedVerified e backupId now state manifest).get "backup_id" = .str backupId := by
  rw [unsignedVerified, get_dict]
  rfl

omit [Ed25519] in
theorem unsigned_manifest : (unsignedVerified e backupId now state manifest).get "manifest_sha256" =
    .str (digestJson manifest) := by
  rw [unsignedVerified, get_dict]
  rfl

omit [Ed25519] in
theorem unsigned_hasKeys :
    (unsignedVerified e backupId now state manifest).hasKeys verificationFields = true :=
  hasKeys_dict fun _ => Iff.rfl

omit [Ed25519] in
/-- What a run signs passes the schema that it is signed and verified under. -/
theorem validate_unsigned (hhex : Sha256.HexDigests) (hid : Text.isBackupId backupId = true)
    (hnamed : Text.hasText e.guard.environmentId = true) :
    validateRestoreVerificationUnsigned repr (unsignedVerified e backupId now state manifest) =
      .ok () := by
  have hschema : (unsignedVerified e backupId now state manifest).get "schema_version" =
      .int 1 := by
    rw [unsignedVerified, get_dict]
    rfl
  have henvironment : (unsignedVerified e backupId now state manifest).get "environment_id" =
      .str e.guard.environmentId := by
    rw [unsignedVerified, get_dict]
    rfl
  have htime : (unsignedVerified e backupId now state manifest).get "verified_at" =
      .str now.formatTime := by
    rw [unsignedVerified, get_dict]
    rfl
  have hrule : (unsignedVerified e backupId now state manifest).get "rule" =
      .str verificationRule := by
    rw [unsignedVerified, get_dict]
    rfl
  have hoperation : (unsignedVerified e backupId now state manifest).get "restore_operation_id" =
      .str e.guard.operationId := by
    rw [unsignedVerified, get_dict]
    rfl
  have hhistory : (unsignedVerified e backupId now state manifest).get "restore_history_sha256" =
      .str (digestJson (state.get "history")) := by
    rw [unsignedVerified, get_dict]
    rfl
  have hdigest : ∀ value, Text.isSha256 (digestJson value) = true := fun value => hhex _
  have hoperation' : Text.isSha256 e.guard.operationId = true := hdigest _
  have hdigests : checkDigests repr (unsignedVerified e backupId now state manifest)
      ["restore_operation_id", "restore_history_sha256", "manifest_sha256"] = .ok () := by
    rw [checkDigests, checkDigests, checkDigests, checkDigests, hoperation, hhistory,
      unsigned_manifest, pyStr_str, pyStr_str, pyStr_str, check_of_true (hdigest _),
      check_of_true (hdigest _), check_of_true hoperation']
    rfl
  rw [validateRestoreVerificationUnsigned, unsigned_backupId, henvironment, htime, hrule,
    check_of_true (by rw [unsigned_hasKeys, hschema]; rfl), pyStr_str, pyStr_str,
    check_of_true hid, check_of_true hnamed]
  dsimp only
  rw [Instant.parseTime?_formatTime, check_of_true Option.isSome_some,
    check_of_true (pyEq_refl _), hdigests]
  rfl

/-- The marker that a run uploads. -/
def signedMarker (a : Authority) (e : RestoreEngine) (backupId : String) (now : Instant)
    (state manifest : Json) : Json :=
  let unsigned := unsignedVerified e backupId now state manifest
  unsigned.set "authentication" (dict [("algorithm", .str "ed25519"), ("key_id", .str a.keyId),
    ("signature", .str (toHex (Ed25519.sign a.key (canonicalJson unsigned))))])

theorem authenticate_unsigned (hhex : Sha256.HexDigests) (hid : Text.isBackupId backupId = true)
    (hnamed : Text.hasText e.guard.environmentId = true) :
    authenticateRestoreVerification repr (unsignedVerified e backupId now state manifest) a.key
      a.keyId = .ok (signedMarker a e backupId now state manifest) := by
  have hnone : ((unsignedVerified e backupId now state manifest).get? "authentication").isNone =
      true := by
    rw [unsignedVerified, get?_dict]
    rfl
  rw [authenticateRestoreVerification, validate_unsigned hhex hid hnamed,
    check_of_true (by rw [a.key_size]; rfl), check_of_true a.keyId_safe, check_of_true hnone]
  rfl

/-- What is signed by the key of an authority verifies under its public key. -/
theorem verify_signedMarker (hhex : Sha256.HexDigests) (hid : Text.isBackupId backupId = true)
    (hnamed : Text.hasText e.guard.environmentId = true) :
    verifyRestoreVerification repr (signedMarker a e backupId now state manifest)
      (Ed25519.publicBytes a.key) a.keyId = .ok () := by
  have hfields : ∃ fs, unsignedVerified e backupId now state manifest = .obj fs ∧
      lookupField "authentication" fs = none := by
    refine ⟨_, eq_obj_of_isDict (isDict_unsigned _ _ _ _ _), ?_⟩
    have hnone : (unsignedVerified e backupId now state manifest).get? "authentication" = none := by
      rw [unsignedVerified, get?_dict]
      rfl
    rwa [eq_obj_of_isDict (isDict_unsigned e backupId now state manifest)] at hnone
  obtain ⟨fs, hfs, hnot⟩ := hfields
  have hunsigned : ∀ v, Json.obj (eraseField "authentication"
      ((unsignedVerified e backupId now state manifest).set "authentication" v).fields) =
      unsignedVerified e backupId now state manifest := by
    intro v
    rw [hfs]
    exact congrArg Json.obj (eraseField_insertField hnot)
  have hsignature : (fromHex? (toHex (Ed25519.sign a.key
      (canonicalJson (unsignedVerified e backupId now state manifest))))).any (fun s =>
        Ed25519.verify (Ed25519.publicBytes a.key) s
          (canonicalJson (unsignedVerified e backupId now state manifest))) = true := by
    rw [fromHex?_toHex]
    exact Ed25519.verify_sign _ _ a.key_size
  rw [verifyRestoreVerification, check_of_true
      (by rw [Ed25519.size_publicBytes _ a.key_size]; rfl), check_of_true a.keyId_safe]
  simp only [signedMarker, hunsigned, get_set (isDict_unsigned _ _ _ _ _), if_true]
  have hget : ∀ signature, (dict [("algorithm", str "ed25519"), ("key_id", str a.keyId),
      ("signature", signature)]).get "algorithm" = str "ed25519" ∧
      (dict [("algorithm", str "ed25519"), ("key_id", str a.keyId),
        ("signature", signature)]).get "key_id" = str a.keyId ∧
      (dict [("algorithm", str "ed25519"), ("key_id", str a.keyId),
        ("signature", signature)]).get "signature" = signature := by
    intro signature
    rw [get_dict, get_dict, get_dict]
    exact ⟨rfl, rfl, rfl⟩
  have hkeys : ∀ signature, (dict [("algorithm", str "ed25519"), ("key_id", str a.keyId),
      ("signature", signature)]).hasKeys ["algorithm", "key_id", "signature"] = true :=
    fun _ => hasKeys_dict fun _ => Iff.rfl
  rw [check_of_true (hkeys _), (hget _).1, (hget _).2.1, (hget _).2.2,
    check_of_true (by rw [pyEq_refl, pyEq_refl]; rfl)]
  dsimp only
  rw [check_of_true (isHex_toHex (Ed25519.size_sign _ _ a.key_size)),
    validate_unsigned hhex hid hnamed, check_of_true hsignature]
  rfl

theorem plain_signedMarker : Plain (signedMarker a e backupId now state manifest) := by
  refine Plain.set (plain_dict ?_) (plain_dict ?_)
  · simp [PlainFields, Plain]
  · simp [PlainFields, Plain]

theorem signedMarker_get {k : String} (h : k ≠ "authentication") :
    (signedMarker a e backupId now state manifest).get k =
      (unsignedVerified e backupId now state manifest).get k := by
  rw [signedMarker, get_set (isDict_unsigned _ _ _ _ _), if_neg h]

end Markers

/-! ## 5. Runs -/

section Runs

variable [Sha256] [Ed25519] (repr : Json → String) (a : Authority) (pre backupId : String)
  (manifest : Json)

/-- A run of `external_ready` that has come to its publication: what it read, and after how many
calls of the remote it dies. -/
structure Attempt where
  engine : RestoreEngine
  environment : Text.hasText engine.guard.environmentId = true
  state : Json
  now : Instant
  calls : Nat

/-- The marker that an attempt would upload. -/
def Attempt.marker (t : Attempt) : Json := signedMarker a t.engine backupId t.now t.state manifest

def Attempt.leaves (t : Attempt) (remote : Remote) : Halt Remote Exn Unit :=
  (publishVerified repr a pre t.engine backupId t.now t.state manifest).exec store t.calls remote

/-- The remote after one attempt after the other. -/
def afterAttempts (attempts : List Attempt) (start : Remote) : Remote :=
  attempts.foldl (fun remote t => (t.leaves repr a pre backupId manifest remote).state) start

/-- There is no marker, or one that an attempt made. -/
def Standing (remote : Remote) : Prop :=
  remote (verifiedKey pre backupId) = none ∨ ∃ t : Attempt,
    remote (verifiedKey pre backupId) = some (canonicalJson (t.marker a backupId manifest))

/-- What was there is still there. -/
def Keeps (remote remote' : Remote) : Prop :=
  ∀ content, remote (verifiedKey pre backupId) = some content →
    remote' (verifiedKey pre backupId) = some content

/-- What an attempt can do to the remote, wherever it ends: it never fails. -/
def published (remote : Remote) : Post Remote Exn Unit where
  returned _ remote' := (∃ t : Attempt,
    remote' (verifiedKey pre backupId) = some (canonicalJson (t.marker a backupId manifest))) ∧
      Keeps pre backupId remote remote'
  raised _ _ := False
  crashed remote' := Standing a pre backupId manifest remote' ∧ Keeps pre backupId remote remote'

variable {repr a pre backupId manifest}

theorem wp_publishVerified (hhex : Sha256.HexDigests) (hid : Text.isBackupId backupId = true)
    {remote : Remote} (h : Standing a pre backupId manifest remote) (t : Attempt) :
    (publishVerified repr a pre t.engine backupId t.now t.state manifest).wp store
      (published a pre backupId manifest remote) remote := by
  have hstay : Standing a pre backupId manifest remote ∧ Keeps pre backupId remote remote :=
    ⟨h, fun _ => id⟩
  rw [publishVerified, Prog.wp_bind]
  have hlook : (RemoteCall.keyExists (verifiedKey pre backupId)).serve remote =
      (.ok (remote (verifiedKey pre backupId)).isSome, remote) := rfl
  refine wp_act hlook hstay ?_
  simp only [Post.seq]
  rcases h with hnone | ⟨made, hmade⟩
  · -- there is none yet: it is signed and uploaded
    have hserve : ∀ content, (RemoteCall.uploadStream content (verifiedKey pre backupId)).serve
        remote = (.ok (), Function.update remote (verifiedKey pre backupId) (some content)) := by
      intro content
      rw [RemoteCall.serve, hnone]
    rw [hnone, Option.isSome_none, if_neg Bool.false_ne_true,
      authenticate_unsigned hhex hid t.environment]
    refine wp_act (hserve _) hstay ⟨⟨t, Function.update_self _ _ _⟩, fun content hcontent => ?_⟩
    rw [hnone] at hcontent
    cases hcontent
  · -- one was made before: it is read and agrees
    have hserve : (RemoteCall.readBytes (verifiedKey pre backupId)).serve remote =
        (.ok (canonicalJson (made.marker a backupId manifest)), remote) := by
      rw [RemoteCall.serve, hmade]
    have hloads : (loads (canonicalJson (made.marker a backupId manifest))).mapError Exn.loadError =
        .ok (made.marker a backupId manifest) := by
      rw [Attempt.marker, loads_canonicalJson plain_signedMarker]
      rfl
    rw [hmade, Option.isSome_some, if_pos rfl, Prog.wp_bind]
    refine wp_act hserve hstay ?_
    simp only [Post.seq]
    rw [hloads]
    have hverified : verifyRestoreVerification repr (made.marker a backupId manifest)
        (Ed25519.publicBytes a.key) a.keyId = .ok () :=
      verify_signedMarker hhex hid made.environment
    have hdict : (made.marker a backupId manifest).isDict = true := by
      rw [Attempt.marker, signedMarker, isDict_set, isDict_unsigned]
    have hsame : ((made.marker a backupId manifest).get "backup_id").pyEq (.str backupId) = true ∧
        ((made.marker a backupId manifest).get "manifest_sha256").pyEq
          ((unsignedVerified t.engine backupId t.now t.state manifest).get "manifest_sha256") =
            true := by
      rw [Attempt.marker, signedMarker_get (by decide), signedMarker_get (by decide),
        unsigned_backupId, unsigned_manifest, unsigned_manifest]
      exact ⟨pyEq_refl _, pyEq_refl _⟩
    refine (Prog.wp_bind _ _ _).mpr (Prog.wp_liftExcept.mpr ⟨?_, fun e he => nomatch he⟩)
    rintro existing ⟨⟩
    refine (Prog.wp_bind _ _ _).mpr (Prog.wp_ensure.mpr ⟨fun _ => ?_, fun hnot => ?_⟩)
    · refine (Prog.wp_bind _ _ _).mpr (Prog.wp_liftExcept.mpr ⟨fun _ _ => ?_, fun e he => ?_⟩)
      · refine Prog.wp_ensure.mpr ⟨fun _ => ⟨⟨made, hmade⟩, fun _ => id⟩, fun hnot => ?_⟩
        rw [hsame.1, hsame.2] at hnot
        cases hnot
      · rw [hverified] at he
        cases he
    · rw [hdict] at hnot
      cases hnot

/-- Without a marker, and with two calls of the remote, an attempt comes to its end. -/
theorem leaves_returned (hhex : Sha256.HexDigests) (hid : Text.isBackupId backupId = true)
    {remote : Remote} (hnone : remote (verifiedKey pre backupId) = none) (t : Attempt) {n : Nat}
    (hcalls : t.calls = n + 2) :
    (t.leaves repr a pre backupId manifest remote).outcome = .returned () := by
  have hlook : (RemoteCall.keyExists (verifiedKey pre backupId)).serve remote =
      (.ok false, remote) := by
    rw [RemoteCall.serve, hnone]
    rfl
  rw [Attempt.leaves, publishVerified, hcalls, exec_act hlook, if_neg Bool.false_ne_true,
    authenticate_unsigned hhex hid t.environment]
  change ((act _).exec store (n + 1) remote).outcome = _
  rw [← bind_pure (act _)]
  have hserve : ∀ content, (RemoteCall.uploadStream content (verifiedKey pre backupId)).serve
      remote = (.ok (), Function.update remote (verifiedKey pre backupId) (some content)) := by
    intro content
    rw [RemoteCall.serve, hnone]
  rw [exec_act (hserve _)]
  rfl

/-- One attempt, wherever it ends. -/
theorem leaves_published (hhex : Sha256.HexDigests) (hid : Text.isBackupId backupId = true)
    {remote : Remote} (h : Standing a pre backupId manifest remote) (t : Attempt) :
    (published a pre backupId manifest remote).Holds (t.leaves repr a pre backupId manifest remote) :=
  Prog.exec_of_wp _ _ _ (wp_publishVerified hhex hid h t)

theorem leaves_standing (hhex : Sha256.HexDigests) (hid : Text.isBackupId backupId = true)
    {remote : Remote} (h : Standing a pre backupId manifest remote) (t : Attempt) :
    Standing a pre backupId manifest (t.leaves repr a pre backupId manifest remote).state ∧
      Keeps pre backupId remote (t.leaves repr a pre backupId manifest remote).state := by
  have hleft := @leaves_published _ _ repr _ _ _ _ hhex hid _ h t
  unfold Post.Holds at hleft
  split at hleft
  · exact ⟨.inr hleft.1, hleft.2⟩
  · exact hleft.elim
  · exact hleft

theorem afterAttempts_standing (hhex : Sha256.HexDigests) (hid : Text.isBackupId backupId = true)
    (attempts : List Attempt) {start : Remote} (h : Standing a pre backupId manifest start) :
    Standing a pre backupId manifest (afterAttempts repr a pre backupId manifest attempts start) ∧
      Keeps pre backupId start (afterAttempts repr a pre backupId manifest attempts start) := by
  induction attempts generalizing start with
  | nil => exact ⟨h, fun _ => id⟩
  | cons t attempts ih =>
    obtain ⟨hstanding, hkeeps⟩ := @leaves_standing _ _ repr _ _ _ _ hhex hid _ h t
    obtain ⟨hlast, hkept⟩ := ih hstanding
    exact ⟨hlast, fun content hcontent => hkept content (hkeeps content hcontent)⟩

end Runs

/-! ## 6. Rotation -/

section Rotation

variable [Sha256] [Ed25519] (repr : Json → String)

/-- `retention_record_from_authenticated_manifest`.  `authentic` is what
`verify_manifest_authentication` and `validate_manifest` check. -/
def retentionRecord (authentic : Json → Except Exn Unit) (manifest : Json)
    (backupId pre keyId : String) : Except Exn Json := do
  authentic manifest
  check ((manifest.get "backup_id").pyEq (.str backupId)) "authenticated manifest identity mismatch"
  check (pre ≠ "" && !Text.hasParentPart pre) "invalid retention remote prefix"
  let frozen ← orRaise ((manifest.get "frozen_at").str?.bind Instant.parseTime?)
    (.safety "non-canonical completion manifest frozen_at")
  let tags ← orRaise (BackupRecovery.generationTags frozen) (.outside "OverflowError")
  let generations := Json.arr ((tags.mergeSort (· ≤ ·)).map Json.str)
  check ((manifest.get "generations").pyEq generations)
    "authenticated manifest generations mismatch"
  let recipientKeyId ← orRaise ((manifest.get "recipient_key_id").str?.filter Text.isSafeId)
    (.safety "invalid authenticated recipient key id")
  let pointRoot := pre ++ "/points/" ++ backupId
  let keys ← (manifest.get "objects").items.foldlM (objectKeys pointRoot recipientKeyId)
    [pointRoot ++ "/manifest.json.age", pointRoot ++ "/database.dump.age",
      pointRoot ++ "/config.tar.age"]
  return recordOf frozen generations (pointRoot ++ "/manifest.json.age")
    ((keys.dedup.mergeSort (· ≤ ·)).map Json.str)
where
  recordOf (frozen : Instant) (generations : Json) (manifestKey : String) (keys : List Json) :
      Json :=
    dict [("schema_version", .int 1), ("backup_id", .str backupId),
      ("frozen_at", .str frozen.formatTime), ("generations", generations),
      ("manifest_key", .str manifestKey), ("object_keys", .arr keys),
      ("authentication_key_id", .str keyId), ("manifest_sha256", .str (digestJson manifest)),
      ("source", .str "ed25519_authenticated_manifest")]
  /-- The loop body over `manifest["objects"]`. -/
  objectKeys (pointRoot recipientKeyId : String) (keys : List String) (item : Json) :
      Except Exn (List String) := do
    let name := pyStr repr (item.get "name")
    let blob := pre ++ "/objects/sha256/" ++ pyStr repr (item.get "plaintext_sha256") ++ "/" ++
      recipientKeyId
    if name = "database" then
      check (pyStr repr (item.get "key") = pointRoot ++ "/database.dump.age")
        "authenticated manifest object key mismatch"
      return (pointRoot ++ "/database.dump.age") :: keys
    else if name = "config" then
      check (pyStr repr (item.get "key") = pointRoot ++ "/config.tar.age")
        "authenticated manifest object key mismatch"
      return (pointRoot ++ "/config.tar.age") :: keys
    else if Text.startsWith name "file:" then
      check (pyStr repr (item.get "key") = blob ++ ".age")
        "authenticated manifest object key mismatch"
      return (blob ++ ".age") :: (blob ++ ".json") :: keys
    else .error (.safety "unsupported authenticated manifest object")

/-- The loop body of `_validated_verified_ids`: the backup that a marker verifies. -/
def validatedVerifiedId (remote : Remote) (pre : String) (allMarkers : List (String × Json))
    (key : Bytes) (keyId name : String) : Except Exn (Option String) :=
  if Text.endsWith name ".json" then do
    let backupId := String.ofList (name.toList.take (name.toList.length - 5))
    check (Text.isBackupId backupId) "invalid backup_id"
    match remote (pre ++ "/verified/" ++ name) with
    | none => .error (.safety "authorized retention read failed")
    | some content => do
      let verification ← (loads content).mapError Exn.loadError
      check verification.isDict "restore verification marker is not a JSON object"
      verifyRestoreVerification repr verification key keyId
      check ((allMarkers.lookup backupId).any fun marker =>
          (verification.get "backup_id").pyEq (.str backupId) &&
            (verification.get "manifest_sha256").pyEq (marker.get "manifest_sha256"))
        "restore verification marker is not bound to this recovery point"
      return some backupId
  else .ok none

/-- `_validated_verified_ids`, over the names that the listing gave. -/
def validatedVerifiedIds (remote : Remote) (pre : String) (allMarkers : List (String × Json))
    (key : Bytes) (keyId : String) : List String → Except Exn (List String)
  | [] => .ok []
  | name :: names => do
    let verified ← validatedVerifiedId repr remote pre allMarkers key keyId name
    let ids ← validatedVerifiedIds remote pre allMarkers key keyId names
    return verified.toList ++ ids

/-- Rotation takes the backup for verified: given the record of its manifest, it does so in
every listing that names the marker and whose other names it accepts. -/
def AcceptedByRotation (remote : Remote) (pre backupId : String) (manifest : Json) (key : Bytes)
    (keyId : String) : Prop :=
  ∀ (authentic : Json → Except Exn Unit) (senderKeyId : String) (record : Json)
    (allMarkers : List (String × Json)) (names : List String),
    retentionRecord repr authentic manifest backupId pre senderKeyId = .ok record →
    allMarkers.lookup backupId = some record → backupId ++ ".json" ∈ names →
    (∀ name ∈ names, name ≠ backupId ++ ".json" →
      ∃ verified, validatedVerifiedId repr remote pre allMarkers key keyId name = .ok verified) →
    ∃ ids, validatedVerifiedIds repr remote pre allMarkers key keyId names = .ok ids ∧
      backupId ∈ ids

variable {repr} {a : Authority} {pre backupId : String} {manifest : Json}

omit [Ed25519] in
theorem recordOf_manifest (keyId : String) (frozen : Instant) (generations : Json) (k : String)
    (keys : List Json) : (retentionRecord.recordOf manifest backupId keyId frozen generations k
      keys).get "manifest_sha256" = .str (digestJson manifest) := by
  rw [retentionRecord.recordOf, get_dict]
  simp [lookupField]

omit [Ed25519] in
/-- The record names the digest of the manifest it was derived from. -/
theorem retentionRecord_manifest {authentic : Json → Except Exn Unit} {keyId : String}
    {record : Json} (h : retentionRecord repr authentic manifest backupId pre keyId = .ok record) :
    record.get "manifest_sha256" = .str (digestJson manifest) := by
  unfold retentionRecord at h
  obtain ⟨_, -, h⟩ := bind_ok h
  obtain ⟨_, -, h⟩ := bind_ok h
  obtain ⟨_, -, h⟩ := bind_ok h
  obtain ⟨_, -, h⟩ := bind_ok h
  obtain ⟨_, -, h⟩ := bind_ok h
  obtain ⟨_, -, h⟩ := bind_ok h
  obtain ⟨_, -, h⟩ := bind_ok h
  obtain ⟨_, -, h⟩ := bind_ok h
  obtain rfl := Except.ok.inj h
  exact recordOf_manifest _ _ _ _ _

theorem validatedVerifiedId_marker (hhex : Sha256.HexDigests)
    (hid : Text.isBackupId backupId = true) {remote : Remote} {made : Attempt}
    (hmade : remote (verifiedKey pre backupId) =
      some (canonicalJson (made.marker a backupId manifest)))
    {allMarkers : List (String × Json)} {record : Json}
    (hrecord : allMarkers.lookup backupId = some record)
    (hdigest : record.get "manifest_sha256" = .str (digestJson manifest)) :
    validatedVerifiedId repr remote pre allMarkers (Ed25519.publicBytes a.key) a.keyId
      (backupId ++ ".json") = .ok (some backupId) := by
  have hname : (backupId ++ ".json").toList = backupId.toList ++ ".json".toList :=
    String.toList_append
  have hends : Text.endsWith (backupId ++ ".json") ".json" = true := by
    rw [Text.endsWith, hname, List.isSuffixOf_iff_suffix]
    exact List.suffix_append _ _
  have hstem : String.ofList ((backupId ++ ".json").toList.take
      ((backupId ++ ".json").toList.length - 5)) = backupId := by
    have hlength : (".json".toList).length = 5 := by decide
    rw [hname, List.length_append, hlength, Nat.add_sub_cancel,
      List.take_append_of_le_length (le_refl _), List.take_length, String.ofList_toList]
  have hkey : pre ++ "/verified/" ++ (backupId ++ ".json") = verifiedKey pre backupId := by
    rw [verifiedKey, String.append_assoc, String.append_assoc, String.append_assoc]
  have hloads : (loads (canonicalJson (made.marker a backupId manifest))).mapError Exn.loadError =
      .ok (made.marker a backupId manifest) := by
    rw [Attempt.marker, loads_canonicalJson plain_signedMarker]
    rfl
  have hverified : verifyRestoreVerification repr (made.marker a backupId manifest)
      (Ed25519.publicBytes a.key) a.keyId = .ok () :=
    verify_signedMarker hhex hid made.environment
  have hbound : ((allMarkers.lookup backupId).any fun marker =>
      ((made.marker a backupId manifest).get "backup_id").pyEq (.str backupId) &&
        ((made.marker a backupId manifest).get "manifest_sha256").pyEq
          (marker.get "manifest_sha256")) = true := by
    rw [hrecord, Option.any_some, hdigest, Attempt.marker, signedMarker_get (by decide),
      signedMarker_get (by decide), unsigned_backupId, unsigned_manifest, pyEq_refl, pyEq_refl]
    rfl
  have hdict : (made.marker a backupId manifest).isDict = true := by
    rw [Attempt.marker, signedMarker, isDict_set, isDict_unsigned]
  rw [validatedVerifiedId, if_pos hends]
  simp only [hstem]
  rw [check_of_true hid, hkey, hmade]
  dsimp only
  rw [hloads]
  simp only [bind, Except.bind]
  rw [check_of_true hdict]
  dsimp only
  rw [hverified]
  dsimp only
  rw [check_of_true hbound]
  rfl

omit [Sha256] in
/-- A name that is accepted is accepted among others. -/
theorem validatedVerifiedIds_ok {remote : Remote} {allMarkers : List (String × Json)}
    {key : Bytes} {keyId name id : String} {names : List String}
    (hall : ∀ n ∈ names, ∃ verified,
      validatedVerifiedId repr remote pre allMarkers key keyId n = .ok verified)
    (hname : validatedVerifiedId repr remote pre allMarkers key keyId name = .ok (some id)) :
    ∃ ids, validatedVerifiedIds repr remote pre allMarkers key keyId names = .ok ids ∧
      (name ∈ names → id ∈ ids) := by
  induction names with
  | nil => exact ⟨[], rfl, by simp⟩
  | cons first names ih =>
    obtain ⟨⟨verified, hverified⟩, hrest⟩ := List.forall_mem_cons.mp hall
    obtain ⟨ids, hids, hmem⟩ := ih hrest
    refine ⟨verified.toList ++ ids, ?_, fun h => ?_⟩
    · rw [validatedVerifiedIds, hverified, hids]
      rfl
    · rcases List.mem_cons.mp h with rfl | h
      · rw [hname] at hverified
        obtain rfl := Except.ok.inj hverified
        simp
      · exact List.mem_append_right _ (hmem h)

theorem acceptedByRotation (hhex : Sha256.HexDigests) (hid : Text.isBackupId backupId = true)
    {remote : Remote} {made : Attempt} (hmade : remote (verifiedKey pre backupId) =
      some (canonicalJson (made.marker a backupId manifest))) :
    AcceptedByRotation repr remote pre backupId manifest (Ed25519.publicBytes a.key) a.keyId := by
  intro authentic senderKeyId record allMarkers names hrecord hlookup hmem hothers
  have hname := @validatedVerifiedId_marker _ _ repr _ _ _ _ hhex hid _ _ hmade _ _ hlookup
    (retentionRecord_manifest hrecord)
  have hall : ∀ n ∈ names, ∃ verified, validatedVerifiedId repr remote pre allMarkers
      (Ed25519.publicBytes a.key) a.keyId n = .ok verified := by
    intro n hn
    by_cases heq : n = backupId ++ ".json"
    · exact ⟨_, heq ▸ hname⟩
    · exact hothers n hn heq
  obtain ⟨ids, hids, hid'⟩ := validatedVerifiedIds_ok hall hname
  exact ⟨ids, hids, hid' hmem⟩

end Rotation

/-! ### A retry after a run that died before its upload -/

section Sample

/-- Signatures of zeros, of which each verifies. -/
@[reducible] def zeroEd25519 : Ed25519 where
  publicBytes key := key
  sign _ _ := ⟨(List.replicate 64 0).toArray⟩
  verify _ signature _ := signature = ⟨(List.replicate 64 0).toArray⟩
  size_publicBytes _ h := h
  size_sign _ _ _ := rfl
  verify_sign _ _ _ := decide_eq_true rfl

def sampleAuthority : Authority where
  key := ⟨(List.replicate 32 0).toArray⟩
  keyId := "restore-1"
  key_size := rfl
  keyId_safe := by decide

def sampleBackupId : String := "20260101T000000Z-00000000000000000000000000000000"

def sampleAttempt (calls : Nat) : Attempt where
  engine :=
    { guard :=
        { environmentId := "drill", backupId := sampleBackupId, operatorId := "operator",
          approvedDataLossWindow := "24h", authorizationRecord := "record",
          expiresAt := ⟨0, endOfTime_pos⟩, challenge := "challenge" }
      recipientKeyId := "age-1"
      rtoHardLimitSeconds := 14400
      fromisoformat := fun _ => .invalid }
  environment := by decide
  state := dict [("history", .arr [])]
  now := ⟨0, endOfTime_pos⟩
  calls := calls

end Sample

end ProductPdfQr.Restore.Verified
