/-
# Administrators and their sessions

The four transactions of the auth service over the tables of administrators and of sessions.
What a call draws at random (a salt, a session id, a token) and the time its transaction starts
at are arguments of the call.  The rows of the audit table are left out: they are only ever
written.
-/
import ProductPdfQr.Database.Transactions
import ProductPdfQr.Digest

namespace ProductPdfQr.Auth

open Database

/-! ## 1. Tables -/

/-- The primary keys of the two tables. -/
inductive Key
  | admin (id : Nat)
  | session (id : String)
  deriving DecidableEq

structure AdminRow where
  username : String
  passwordHash : String
  mustChangePassword : Bool
  passwordUpdatedAt : Int
  lastLoginAt : Option Int
  deriving DecidableEq

structure SessionRow where
  adminId : Nat
  tokenHash : String
  issuedAt : Int
  expiresAt : Int
  revokedAt : Option Int
  deriving DecidableEq

/-- The rows of each table. -/
abbrev Row : Key → Type
  | .admin _ => AdminRow
  | .session _ => SessionRow

/-- A condition on the rows of the administrators. -/
def onAdmins (p : Nat → AdminRow → Bool) : (k : Key) → Row k → Bool
  | .admin id, row => p id row
  | .session _, _ => false

/-- A condition on the rows of the sessions. -/
def onSessions (p : String → SessionRow → Bool) : (k : Key) → Row k → Bool
  | .admin _, _ => false
  | .session id, row => p id row

/-- `SET revoked_at = now()`. -/
def revokedAt (now : Int) : (k : Key) → Row k → Row k
  | .admin _, row => row
  | .session _, row => { row with revokedAt := some now }

/-! ## 2. Credentials -/

/-- `AppError`: its code, its message and its status. -/
structure AppError where
  code : String
  message : String
  status : Nat
  deriving DecidableEq, Repr

/-- `PasswordManager`, and the case folding of the platform.  A hash depends on its salt. -/
structure PasswordManager where
  hash : String → String → String
  verify : String → String → Bool
  casefold : String → String

/-- `normalize_username`. -/
def normalizeUsername (rawUsername : String) : Except AppError String :=
  let username := Text.strip rawUsername
  if username = "" || username.length > 64 then
    .error ⟨"invalid_admin_username", "管理员用户名须为 1-64 个字符。", 422⟩
  else .ok username

/-- `validate_new_password`. -/
def validateNewPassword (m : PasswordManager) (password username : String) :
    Except AppError Unit :=
  if password.length < 12 then
    .error ⟨"weak_password", "密码至少需要 12 个字符。", 422⟩
  else if m.casefold password = m.casefold username then
    .error ⟨"weak_password", "密码不得与管理员用户名相同。", 422⟩
  else .ok ()

variable [Sha256]

/-- `hash_session_token`. -/
def hashSessionToken (token : String) : String := Sha256.hexdigest token.toUTF8

/-! ## 3. Transactions -/

structure AuthenticatedAdmin where
  id : Nat
  username : String
  mustChangePassword : Bool
  sessionId : String
  sessionExpiresAt : Int
  deriving DecidableEq

structure CreatedSession where
  token : String
  admin : AuthenticatedAdmin
  deriving DecidableEq

/-- Nothing is asked outside the two tables. -/
abbrev AuthTx := Transaction (X := Empty) Row (fun _ => Unit) AppError

/-- `reset_admin_password`. -/
def resetAdminPassword (m : PasswordManager) (rawUsername password salt : String) (now : Int) :
    AuthTx Nat := do
  let username ← Effect.Prog.liftExcept (normalizeUsername rawUsername)
  Effect.Prog.liftExcept (validateNewPassword m password username)
  let passwordHash := m.hash salt password
  match ← selectForUpdate (onAdmins fun _ row => row.username = username) with
  | some ⟨.admin adminId, _⟩ => do
    updateRow (Key.admin adminId) (fun _ => true) fun row : AdminRow =>
      { row with passwordHash := passwordHash, mustChangePassword := true, passwordUpdatedAt := now }
    updateWhere
      (onSessions fun _ row => row.adminId = adminId && row.revokedAt.isNone) (revokedAt now)
    return adminId
  | _ => throw ⟨"admin_not_found", "管理员不存在。", 404⟩

/-- `create_authenticated_session`, with the hash that it verified the password against. -/
def createAuthenticatedSession (m : PasswordManager) (rawUsername password : String)
    (ttlSeconds : Int) (sessionId token : String) (now : Int) :
    AuthTx (Option (CreatedSession × String)) := do
  match normalizeUsername rawUsername with
  | .error _ => return none
  | .ok username =>
    match ← selectForUpdate (onAdmins fun _ row => row.username = username) with
    | some ⟨.admin adminId, (row : AdminRow)⟩ =>
      if m.verify row.passwordHash password then do
        let expiresAt := now + ttlSeconds * 1000000
        let session : SessionRow := {
          adminId := adminId
          tokenHash := hashSessionToken token
          issuedAt := now
          expiresAt := expiresAt
          revokedAt := none }
        if ← insert (Key.session sessionId) session then do
          updateRow (Key.admin adminId) (fun _ => true) fun row : AdminRow =>
            { row with lastLoginAt := some now }
          return some (⟨token, ⟨adminId, row.username, row.mustChangePassword, sessionId,
            expiresAt⟩⟩, row.passwordHash)
        else throw ⟨"unique_violation", "admin_sessions_pkey", 500⟩
      else return none
    | _ => return none

/-- `revoke_session`. -/
def revokeSession (admin : AuthenticatedAdmin) (now : Int) : AuthTx Unit :=
  updateRow (Key.session admin.sessionId)
    (fun row : SessionRow => row.adminId = admin.id && row.revokedAt.isNone)
    (revokedAt now (Key.session admin.sessionId))

/-- `change_password`, with the hash that it set. -/
def changePassword (m : PasswordManager) (admin : AuthenticatedAdmin)
    (currentPassword newPassword salt : String) (now : Int) : AuthTx String := do
  Effect.Prog.liftExcept (validateNewPassword m newPassword admin.username)
  match ← lock (Key.admin admin.id) with
  | some (row : AdminRow) =>
    if m.verify row.passwordHash currentPassword then
      if m.verify row.passwordHash newPassword then
        throw ⟨"password_unchanged", "新密码必须与当前密码不同。", 422⟩
      else do
        let newHash := m.hash salt newPassword
        updateRow (Key.admin admin.id) (fun _ => true) fun row : AdminRow =>
          { row with passwordHash := newHash, mustChangePassword := false, passwordUpdatedAt := now }
        updateWhere
          (onSessions fun id row =>
            row.adminId = admin.id && id ≠ admin.sessionId && row.revokedAt.isNone)
          (revokedAt now)
        return newHash
    else throw ⟨"invalid_current_password", "当前密码不正确。", 422⟩
  | none => throw ⟨"admin_not_found", "管理员不存在。", 404⟩

/-! ## 4. Calls -/

/-- A call of the service, with all that it was given, drew and read from the clock. -/
inductive AuthCall
  | reset (rawUsername password salt : String) (now : Int)
  | login (rawUsername password : String) (ttlSeconds : Int) (sessionId token : String) (now : Int)
  | revoke (admin : AuthenticatedAdmin) (now : Int)
  | change (admin : AuthenticatedAdmin) (currentPassword newPassword salt : String) (now : Int)

/-- What a committed call did. -/
inductive AuthEvent
  | reset (adminId : Nat) (passwordHash : String)
  | login (created : Option (CreatedSession × String))
  | revoke (admin : AuthenticatedAdmin)
  | change (admin : AuthenticatedAdmin) (passwordHash : String)

/-- The transaction of a call. -/
def AuthCall.body (m : PasswordManager) : AuthCall → AuthTx AuthEvent
  | .reset rawUsername password salt now =>
    (fun adminId => .reset adminId (m.hash salt password)) <$>
      resetAdminPassword m rawUsername password salt now
  | .login rawUsername password ttlSeconds sessionId token now =>
    .login <$> createAuthenticatedSession m rawUsername password ttlSeconds sessionId token now
  | .revoke admin now => (fun _ => .revoke admin) <$> revokeSession admin now
  | .change admin currentPassword newPassword salt now =>
    .change admin <$> changePassword m admin currentPassword newPassword salt now

end ProductPdfQr.Auth
