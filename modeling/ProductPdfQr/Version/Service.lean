/-
# Products and their versions

The transactions that create a product, set its status, upload a version of its file and
restore one, over the tables of the schema.  A unique index is a table of its own, whose keys
are what is unique.  `create_product` makes up to five attempts, and an attempt is a
transaction; the draws and the clock are arguments.  Audit rows are only ever written, and are
left out.
-/
import ProductPdfQr.Auth.Service
import ProductPdfQr.Version.Storage

namespace ProductPdfQr.Version

open Database Effect
open Auth (AppError)

/-! ## 1. Tables -/

/-- The primary keys and the unique ones. -/
inductive Key
  | product (id : Nat)
  | productCode (code : String)
  | productToken (token : String)
  | version (id : Nat)
  | versionNo (productId no : Nat)
  | file (sha256 : String)
  | fileId (id : Nat)
  | actor (id : Nat)
  deriving DecidableEq

inductive ProductStatus
  | active
  | disabled
  deriving DecidableEq

structure ProductRow where
  code : String
  name : String
  publicToken : String
  status : ProductStatus
  currentVersionId : Option Nat
  createdAt : Int
  updatedAt : Int
  deriving DecidableEq

structure VersionRow where
  productId : Nat
  pdfFileId : Nat
  versionNo : Nat
  originalFilename : String
  uploadedBy : Nat
  uploadedAt : Int
  deriving DecidableEq

structure FileRow where
  id : Nat
  sizeBytes : Nat
  storagePath : String
  createdAt : Int
  deriving DecidableEq

/-- The rows of each table; an index holds the primary key it leads to. -/
abbrev Row : Key → Type
  | .product _ => ProductRow
  | .productCode _ => Nat
  | .productToken _ => Nat
  | .version _ => VersionRow
  | .versionNo _ _ => Nat
  | .file _ => FileRow
  | .fileId _ => String
  | .actor _ => Unit

/-- The versions among the rows of a statement. -/
def versionsIn (rows : List ((k : Key) × Row k)) : List (Nat × VersionRow) :=
  rows.filterMap fun
    | ⟨.version id, row⟩ => some (id, row)
    | _ => none

/-- The files among the rows of a statement. -/
def filesIn (rows : List ((k : Key) × Row k)) : List (String × FileRow) :=
  rows.filterMap fun
    | ⟨.file sha256, row⟩ => some (sha256, row)
    | _ => none

/-- A condition on the versions. -/
def onVersions (p : Nat → VersionRow → Bool) : (k : Key) → Row k → Bool
  | .version id, row => p id row
  | _, _ => false

/-! ## 2. Failures -/

/-- What the body of a transaction raises. -/
inductive Failure
  | app (e : AppError)
  | runtime (message : String)
  | uniqueViolation (constraint : String)
  deriving DecidableEq

/-- What `upload_pdf` makes of it. -/
def uploadFailure : Failure → Failure
  | .app e => .app e
  | _ => .app ⟨"pdf_upload_failed", "PDF 上传失败, 请重试。", 500⟩

def productNotFound : Failure := .app ⟨"product_not_found", "产品不存在。", 404⟩

/-- `DuplicateCurrentPDF`. -/
def duplicateCurrentPdf : Failure := .app ⟨"duplicate_current_pdf", "与当前文件相同", 409⟩

variable [Sha256] {received : String → Bytes}

/-- A transaction over these tables, and the storage. -/
abbrev VersionTx (received : String → Bytes) :=
  Transaction (X := Ask received) Row Ask.Answer Failure

/-- `nextval`. -/
def nextval (s : Sequence) : VersionTx received Nat := outside (Ask.nextval s)

/-- `INSERT`, with the name of the constraint that another such row violates. -/
def insertUnique (k : Key) (row : Row k) (constraint : String) : VersionTx received Unit := do
  if ← insert k row then return () else throw (.uniqueViolation constraint)

/-! ## 3. Products -/

/-- `normalize_product_code`. -/
def normalizeProductCode (rawCode : String) : Except Failure String :=
  let stripped := Text.strip rawCode
  if 0 < stripped.length && stripped.length ≤ 64 &&
      stripped.toList.all fun c => Text.isAlnum c || c = '_' || c = '-' then
    .ok (String.ofList (stripped.toList.map Char.toUpper))
  else .error (.app ⟨"invalid_product_code", "产品编码须为 1-64 位英文字母、数字、横线或下划线。", 422⟩)

/-- `normalize_product_name`. -/
def normalizeProductName (rawName : String) : Except Failure String :=
  let name := Text.strip rawName
  if name = "" || name.length > 120 then
    .error (.app ⟨"invalid_product_name", "产品名称须为 1-120 个字符。", 422⟩)
  else .ok name

/-- One attempt of `create_product`. -/
def createProduct (rawCode rawName token : String) (now : Int) : VersionTx received Nat := do
  let code ← Prog.liftExcept (normalizeProductCode rawCode)
  let name ← Prog.liftExcept (normalizeProductName rawName)
  let id ← nextval .products
  let product : ProductRow := {
    code := code
    name := name
    publicToken := token
    status := .active
    currentVersionId := none
    createdAt := now
    updatedAt := now }
  insertUnique (.product id) product "products_pkey"
  if ← insert (Key.productCode code) id then do
    insertUnique (.productToken token) id "products_public_token_key"
    return id
  else throw (.app ⟨"duplicate_product_code", "产品编码已存在。", 409⟩)

/-- `set_product_status`. -/
def setProductStatus (productId : Nat) (newStatus : ProductStatus) (now : Int) :
    VersionTx received Unit := do
  match ← lock (Key.product productId) with
  | none => throw productNotFound
  | some (product : ProductRow) =>
    if product.status = newStatus then return ()
    else updateRow (Key.product productId) (fun _ => true) fun row : ProductRow =>
      { row with status := newStatus, updatedAt := now }

/-! ## 4. Versions -/

structure RestoredPDFVersion where
  productId : Nat
  versionId : Nat
  versionNo : Nat
  deriving DecidableEq

/-- `UPDATE products SET current_version_id`. -/
def setCurrentVersion (productId versionId : Nat) (now : Int) : VersionTx received Unit :=
  updateRow (Key.product productId) (fun _ => true) fun row : ProductRow =>
    { row with currentVersionId := some versionId, updatedAt := now }

/-- `restore_pdf_version`. -/
def restorePdfVersion (productId versionId : Nat) (now : Int) :
    VersionTx received RestoredPDFVersion := do
  match ← lock (Key.product productId) with
  | none => throw productNotFound
  | some (product : ProductRow) => do
    let rows ← scan (onVersions fun id row =>
      row.productId = productId && (id = versionId || some id = product.currentVersionId))
    match (versionsIn rows).lookup versionId with
    | none => throw (.app ⟨"version_not_found_for_product", "指定版本不存在或不属于该产品。", 404⟩)
    | some target =>
      match product.currentVersionId.bind fun current => (versionsIn rows).lookup current with
      | none => throw (.runtime "Current version pointer cannot be resolved")
      | some _ => do
        setCurrentVersion productId versionId now
        return ⟨productId, versionId, target.versionNo⟩

structure PDFVersion where
  id : Nat
  productId : Nat
  versionNo : Nat
  pdfFileId : Nat
  sha256 : String
  sizeBytes : Nat
  storagePath : String
  originalFilename : String
  deriving DecidableEq

/-- The rows of the join of the current version with its file. -/
def currentWithFile (productId versionId : Nat) : (k : Key) → Row k → Bool
  | .version id, row => row.productId = productId && id = versionId
  | .file _, _ => true
  | _, _ => false

/-- The current content is not the one that is uploaded. -/
def refuseDuplicate (productId : Nat) (upload : ValidatedUpload received) :
    Option Nat → VersionTx received Unit
  | none => return ()
  | some currentVersionId => do
    let rows ← scan (currentWithFile productId currentVersionId)
    match (versionsIn rows).head?.bind fun version =>
        (filesIn rows).find? fun file => file.2.id = version.2.pdfFileId with
    | none => throw (.runtime "Current version pointer cannot be resolved")
    | some (sha256, file) =>
      if file.sizeBytes = upload.sizeBytes && sha256 = upload.sha256 then throw duplicateCurrentPdf
      else return ()

/-- `SELECT COALESCE(MAX(version_no), 0) + 1`. -/
def nextVersionNo (productId : Nat) : VersionTx received Nat := do
  let rows ← scan (onVersions fun _ row => row.productId = productId)
  return ((versionsIn rows).map fun version => version.2.versionNo).foldl max 0 + 1

/-- `storage.publish`: a worker is started and waited for. -/
def publish (upload : ValidatedUpload received) : VersionTx received PublishedFile := do
  let worker : Nat ← outside (Ask.publish upload)
  let published : Option PublishedFile ← outside (Ask.await worker)
  match published with
  | none => throw (.runtime "publication failed")
  | some published => return published

/-- The row of the content: a new one, or the one that is there. -/
def insertFile (upload : ValidatedUpload received) (published : PublishedFile) (now : Int) :
    VersionTx received FileRow := do
  let id ← nextval .files
  let row : FileRow := ⟨id, upload.sizeBytes, published.storagePath, now⟩
  if ← insert (Key.file upload.sha256) row then do
    insertUnique (.fileId id) upload.sha256 "pdf_files_pkey"
    return row
  else do
    let rows ← scan fun k _ => k = Key.file upload.sha256
    match (filesIn rows).head? with
    | none => throw (.runtime "Content-addressed file row cannot be resolved")
    | some (_, file) => return file

/-- The row of the content, which must fit the upload. -/
def resolveFile (upload : ValidatedUpload received) (published : PublishedFile) (now : Int) :
    VersionTx received FileRow := do
  let file ← insertFile upload published now
  if file.sizeBytes = upload.sizeBytes && file.storagePath = published.storagePath then
    return file
  else throw (.runtime "Content-addressed file metadata conflict")

/-- The new version, made current. -/
def appendVersion (productId actorId no fileId : Nat) (upload : ValidatedUpload received)
    (now : Int) : VersionTx received Nat := do
  let id ← nextval .versions
  insertUnique (.version id) ⟨productId, fileId, no, upload.originalFilename, actorId, now⟩
    "pdf_versions_pkey"
  insertUnique (.versionNo productId no) id "uq_pdf_versions_product_version"
  setCurrentVersion productId id now
  return id

/-- The transaction of `upload_pdf`. -/
def uploadTransaction (productId actorId : Nat) (upload : ValidatedUpload received) (now : Int) :
    VersionTx received PDFVersion := do
  match ← lock (Key.product productId) with
  | none => throw productNotFound
  | some (product : ProductRow) => do
    let actors ← scan fun k _ => k = Key.actor actorId
    if actors.isEmpty then
      throw (.app ⟨"upload_actor_not_found", "上传操作者不存在。", 422⟩)
    else do
      refuseDuplicate productId upload product.currentVersionId
      let no ← nextVersionNo productId
      let published ← publish upload
      let file ← resolveFile upload published now
      let id ← appendVersion productId actorId no file.id upload now
      return ⟨id, productId, no, file.id, upload.sha256, upload.sizeBytes, published.storagePath,
        upload.originalFilename⟩

/-- `upload_pdf`. -/
def uploadPdf (productId actorId : Nat) (upload : ValidatedUpload received) (now : Int) :
    VersionTx received PDFVersion :=
  (uploadTransaction productId actorId upload now).mapError uploadFailure

/-! ## 5. Calls -/

/-- A call of the service, with all that it was given, drew and read from the clock. -/
inductive VersionCall (received : String → Bytes)
  | create (rawCode rawName token : String) (now : Int)
  | setStatus (productId : Nat) (newStatus : ProductStatus) (now : Int)
  | restore (productId versionId : Nat) (now : Int)
  | upload (productId actorId : Nat) (candidate : ValidatedUpload received) (now : Int)

/-- What a committed call did. -/
inductive VersionEvent
  | created (productId : Nat)
  | statusSet (productId : Nat)
  | restored (restored : RestoredPDFVersion)
  | uploaded (version : PDFVersion) (content : Bytes)
  deriving DecidableEq

/-- The transaction of a call. -/
def VersionCall.body : VersionCall received → VersionTx received VersionEvent
  | .create rawCode rawName token now => .created <$> createProduct rawCode rawName token now
  | .setStatus productId newStatus now =>
    (fun _ => .statusSet productId) <$> setProductStatus productId newStatus now
  | .restore productId versionId now => .restored <$> restorePdfVersion productId versionId now
  | .upload productId actorId candidate now =>
    (fun version => .uploaded version (received candidate.temporaryPath)) <$>
      uploadPdf productId actorId candidate now

end ProductPdfQr.Version
