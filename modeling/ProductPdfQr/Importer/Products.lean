/-
# The import of products

`import_products` checks a workbook without writing anything, and then creates its products and
the record of its success in one transaction.  Whatever refuses the workbook on the way is
recorded in a transaction of its own.

The parser runs in a process of its own, so all that is known of it is how the process ended.
Of the database it is known what an import adds to it, what others have committed by then, and
where it fails.
-/
import ProductPdfQr.Importer.Container
import Mathlib.Tactic.NormNum

namespace ProductPdfQr.Importer

/-! ## 1. Workbooks -/

/-- `ParsedCells`: columns and their texts. -/
abbrev ParsedCells := List (Nat × String)

/-- `values.get(index)`. -/
def ParsedCells.get (cells : ParsedCells) (index : Nat) : String :=
  ((cells.find? (·.1 = index)).map Prod.snd).getD ""

structure ParsedRow where
  rowNumber : Int
  values : ParsedCells
  hasNonblankCells : Bool
  deriving DecidableEq

structure ParsedWorkbook where
  headers : ParsedCells
  rows : List ParsedRow
  nonemptySheetCount : Nat
  deriving DecidableEq

/-- How the process of the parser ended. -/
inductive WorkerEnd
  | returned (workbook : ParsedWorkbook)
  | memoryError
  | rejected (r : XlsxRejected)
  /-- Any other exception, of this type and with this text. -/
  | raised (typeName text : String)
  /-- It could not limit its own memory. -/
  | unlimited
  /-- It was still running at the timeout, and was terminated. -/
  | late (elapsedSeconds : ℚ)
  /-- It ended without an answer. -/
  | gone (exitCode : Option Int)

/-! ## 2. Settings, uploads and records -/

/-- The fields of `Settings` that an import reads. -/
structure ImportSettings where
  importMaxUploadBytes : Nat
  importMaxDecompressedBytes : Nat
  importMaxCompressionRatio : ℚ
  importParseTimeoutSeconds : ℚ
  importMaxRows : Nat
  importParseMemoryBytes : Nat

structure UploadFile where
  filename : Option String
  content : Bytes

/-- What stands outside of this package: the ZIP library, the process of the parser, and the
functions on texts and numbers that the messages are made with. -/
structure Surroundings where
  zip : ZipLibrary
  worker : Bytes → ImportSettings → WorkerEnd
  casefold : String → String
  repr : String → String
  /-- `f"{seconds:g}"`. -/
  general : ℚ → String

inductive ImportErrorKind
  | format
  | security
  | system
  deriving DecidableEq, Repr

structure ImportRowError where
  row : Option Int
  reason : String
  kind : ImportErrorKind
  deriving DecidableEq, Repr

structure ImportCandidate where
  row : Int
  code : String
  name : String
  deriving DecidableEq, Repr

inductive Status
  | success
  | failure
  deriving DecidableEq, Repr

def Status.text : Status → String
  | success => "success"
  | failure => "failure"

structure ImportResult where
  successCount : Nat
  duplicateCount : Nat
  formatErrorCount : Nat
  errors : List ImportRowError := []
  notices : List String := []
  status : Status := .success
  errorCode : Option String := none
  httpStatus : Nat := 200
  deriving DecidableEq, Repr

/-- `AuditEvent`. -/
structure AuditEvent where
  action : String
  result : String
  actorType : String
  actorId : Option Nat
  targetType : String
  requestId : String
  detail : Detail
  deriving DecidableEq

/-- `AppError`. -/
structure AppError where
  code : String
  message : String
  status : Nat
  deriving DecidableEq, Repr

structure ProductRow where
  code : String
  name : String
  publicToken : String
  deriving DecidableEq, Repr

/-- The database during an import. -/
structure Database where
  /-- The products of all the others that are committed by an attempt at a candidate. -/
  others : (turn attempt : Nat) → List ProductRow
  /-- It fails at the turn of a candidate or, after the last, at the record and the commit. -/
  breaks : (turn : Nat) → Bool
  /-- A record in a transaction of its own is written. -/
  records : Bool

/-- A database that does not fail. -/
def Database.available (others : (turn attempt : Nat) → List ProductRow) : Database where
  others := others
  breaks := fun _ => false
  records := true

/-- What leaves an import as an exception. -/
inductive Raised
  | library (e : ZipError)
  | database
  deriving DecidableEq

/-- How an import ends, and what it has added to the database by then. -/
structure Outcome where
  ended : Except Raised ImportResult
  created : List ProductRow
  events : List AuditEvent

/-! ## 3. Phase one -/

/-- What phase one ends with instead of its candidates. -/
inductive Failure
  | formatErrors (errors : List ImportRowError)
  | refused (refusal : Refusal)

/-- `^[A-Za-z0-9_-]{1,64}$`. -/
def isProductCode (s : String) : Bool :=
  1 ≤ s.length && s.length ≤ 64 && s.toList.all fun c => Text.isAlnum c || c = '_' || c = '-'

/-- `normalize_product_code`. -/
def normalizeProductCode (rawCode : String) : Except AppError String :=
  let stripped := Text.strip rawCode
  if isProductCode stripped then .ok (String.ofList (stripped.toList.map Char.toUpper))
  else .error ⟨"invalid_product_code", "产品编码须为 1-64 位英文字母、数字、横线或下划线。", 422⟩

/-- `normalize_product_name`. -/
def normalizeProductName (rawName : String) : Except AppError String :=
  let name := Text.strip rawName
  if name = "" || 120 < name.length then
    .error ⟨"invalid_product_name", "产品名称须为 1-120 个字符。", 422⟩
  else .ok name

/-- `_code_error_reason`. -/
def codeErrorReason (rawCode : String) (error : AppError) : String :=
  let stripped := Text.strip rawCode
  if 64 < stripped.length then "产品编码超过 64 字符。"
  else if stripped.toList.any Text.isSpace then "产品编码含内部空格, 属于非法格式。"
  else "产品编码含非法字符; " ++ error.message

/-- What the loop over the rows has found so far. -/
structure Tally where
  candidates : List ImportCandidate := []
  seenCodes : List String := []
  duplicateCount : Nat := 0
  errors : List ImportRowError := []

section Rows

variable (codeColumn : Nat) (nameColumn : Option Nat)

/-- `raw_name`. -/
def rawNameOf (row : ParsedRow) : String := (nameColumn.map row.values.get).getD ""

/-- What the body of the loop makes of a row by itself. -/
def readRow (row : ParsedRow) : Except ImportRowError ImportCandidate :=
  let rawCode := row.values.get codeColumn
  if !Text.hasText rawCode then .error ⟨some row.rowNumber, "产品编码为空。", .format⟩
  else match normalizeProductCode rawCode with
  | .error error => .error ⟨some row.rowNumber, codeErrorReason rawCode error, .format⟩
  | .ok code =>
    let rawName := rawNameOf nameColumn row
    match if Text.hasText rawName then normalizeProductName rawName else .ok code with
    | .error _ => .error ⟨some row.rowNumber, "产品名称超过 120 字符。", .format⟩
    | .ok name => .ok ⟨row.rowNumber, code, name⟩

/-- The body of the loop over the rows. -/
def tallyRow (tally : Tally) (row : ParsedRow) : Tally :=
  match readRow codeColumn nameColumn row with
  | .error error => { tally with errors := tally.errors ++ [error] }
  | .ok candidate =>
    if tally.seenCodes.contains candidate.code then
      { tally with duplicateCount := tally.duplicateCount + 1 }
    else
      { tally with
        seenCodes := tally.seenCodes ++ [candidate.code]
        candidates := tally.candidates ++ [candidate] }

end Rows

def codeHeaders : List String := ["编码", "产品编码"]

def nameHeaders : List String := ["名称", "产品名称"]

section PhaseOne

variable (s : Surroundings) (settings : ImportSettings)

/-- The columns whose header is one of the names. -/
def headerColumns (headers : ParsedCells) (names : List String) : List Nat :=
  (headers.filter fun cell => names.contains (s.casefold (Text.strip cell.2))).map Prod.fst

/-- `validate_workbook`. -/
def validateWorkbook (workbook : ParsedWorkbook) :
    Except Failure (List ImportCandidate × Nat × List String) :=
  let nonblankRows := workbook.rows.filter ParsedRow.hasNonblankCells
  let headerValues := workbook.headers.map Prod.snd
  if settings.importMaxRows < nonblankRows.length then
    .error (.refused (.rejected {
      code := "xlsx_row_limit_exceeded"
      message := "数据行超过 5,000 行上限, 请分批导入。"
      detail := [("reason", .text "row_limit_exceeded"),
        ("actual_rows", .int nonblankRows.length), ("max_rows", .int settings.importMaxRows)]
      statusCode := 413 }))
  else match headerColumns s workbook.headers codeHeaders with
  | [] =>
    .error (.refused (.rejected {
      code := "missing_code_column"
      message := "找不到编码列; 实际表头: " ++ "、".intercalate (headerValues.map s.repr)
      detail := [("reason", .text "missing_code_column"), ("actual_headers", .texts headerValues)]
      formatError := true }))
  | _ :: _ :: _ =>
    .error (.refused (.rejected {
      code := "ambiguous_code_column"
      message := "列名歧义: 编码列只能出现一次, 且“编码/产品编码”不能同时存在。"
      detail := [("reason", .text "ambiguous_code_column"),
        ("actual_headers", .texts headerValues)]
      formatError := true }))
  | [codeColumn] =>
    let nameColumn := (headerColumns s workbook.headers nameHeaders).head?
    let tally := nonblankRows.foldl (tallyRow codeColumn nameColumn) {}
    if tally.errors ≠ [] then .error (.formatErrors tally.errors)
    else .ok (tally.candidates, tally.duplicateCount,
      if 1 < workbook.nonemptySheetCount then
        ["本文件含 " ++ toString workbook.nonemptySheetCount ++ " 个工作表，仅导入第 1 个"]
      else [])

def resourceLimit (memoryBytes : Nat) (exitCode : Detail) : XlsxRejected where
  code := "xlsx_parse_resource_limit"
  message := "XLSX 解析超过内存资源上限。"
  detail := [("reason", .text "parser_memory_limit_exceeded"),
    ("max_memory_bytes", .int memoryBytes)] ++ exitCode
  statusCode := 413

/-- `parse_xlsx_with_timeout`, by how the worker ended. -/
def parseXlsxWithTimeout : WorkerEnd → Except XlsxRejected ParsedWorkbook
  | .returned workbook => .ok workbook
  | .memoryError => .error (resourceLimit settings.importParseMemoryBytes [])
  | .unlimited => .error (resourceLimit settings.importParseMemoryBytes [])
  | .rejected r => .error r
  | .raised typeName _ =>
    .error {
      code := "invalid_xlsx"
      message := "XLSX 结构无法解析。"
      detail := [("reason", .text "xml_or_workbook_parse_failed"), ("error_type", .text typeName)]
      formatError := true }
  | .late elapsedSeconds =>
    .error {
      code := "xlsx_parse_timeout"
      message := "XLSX 解析超过 " ++ s.general settings.importParseTimeoutSeconds ++
        " 秒上限, 已中止。"
      detail := [("reason", .text "parse_timeout"),
        ("actual_elapsed_seconds", .number elapsedSeconds),
        ("max_parse_seconds", .number settings.importParseTimeoutSeconds)]
      statusCode := 408 }
  | .gone exitCode =>
    match exitCode with
    | some code =>
      if code < 0 then
        .error (resourceLimit settings.importParseMemoryBytes [("exit_code", .int code)])
      else .error {
        code := "invalid_xlsx"
        message := "XLSX 解析失败。"
        detail := [("reason", .text "parser_process_failed"), ("exit_code", .int code)]
        formatError := true }
    | none => .error {
        code := "invalid_xlsx"
        message := "XLSX 解析失败。"
        detail := [("reason", .text "parser_process_failed"), ("exit_code", .missing)]
        formatError := true }

/-- `read_upload_with_limit`: it stops at the first byte over the limit. -/
def readUploadWithLimit (content : Bytes) : Except XlsxRejected Bytes :=
  if settings.importMaxUploadBytes < content.size then
    .error {
      code := "xlsx_too_large"
      message := "文件超过 10 MB 上限。"
      detail := [("reason", .text "upload_size_exceeded"),
        ("actual_bytes", .int (settings.importMaxUploadBytes + 1)),
        ("max_upload_bytes", .int settings.importMaxUploadBytes)]
      statusCode := 413 }
  else .ok content

/-- The extension is the one of a workbook. -/
def hasExtension (filename : Option String) : Bool :=
  filename.any fun name => name ≠ "" && Text.endsWith (s.casefold name) ".xlsx"

/-- What phase one hands to phase two. -/
structure Prepared where
  candidates : List ImportCandidate
  fileDuplicateCount : Nat
  notices : List String
  metrics : ContainerMetrics
  uploadBytes : Nat

/-- The body of the first `try`. -/
def phaseOne (upload : UploadFile) : Except Failure Prepared := do
  let content ← (readUploadWithLimit settings upload.content).mapError
    fun r => .refused (.rejected r)
  if hasExtension s upload.filename then
    let metrics ← (inspectXlsxContainer s.zip s.casefold content
      settings.importMaxDecompressedBytes settings.importMaxCompressionRatio).mapError .refused
    let workbook ← (parseXlsxWithTimeout s settings (s.worker content settings)).mapError
      fun r => .refused (.rejected r)
    let (candidates, fileDuplicateCount, notices) ← validateWorkbook s settings workbook
    return ⟨candidates, fileDuplicateCount, notices, metrics, content.size⟩
  else
    .error (.refused (.rejected {
      code := "invalid_xlsx_extension"
      message := "请选择 .xlsx 文件。"
      detail := [("reason", .text "invalid_extension"),
        ("actual_filename", .text (upload.filename.getD ""))]
      formatError := true }))

end PhaseOne

/-! ## 4. Phase two -/

/-- The unique constraints of `products`. -/
inductive UniqueKey
  | code
  | publicToken
  deriving DecidableEq, Repr

/-- The `INSERT`, in a savepoint of its own, where the others and this import have their
products. -/
def insertProduct (others own : List ProductRow) (row : ProductRow) :
    Except UniqueKey (List ProductRow) :=
  if (others ++ own).any (·.code = row.code) then .error .code
  else if (others ++ own).any (·.publicToken = row.publicToken) then .error .publicToken
  else .ok (own ++ [row])

def tokenRetryLimit : Nat := 5

/-- The loop over the attempts: the products of the others at each of them, and its token. -/
def attemptInsert (own : List ProductRow) (code name : String) :
    List (List ProductRow × String) → Except AppError (List ProductRow)
  | [] => .error ⟨"token_generation_failed", "无法生成公开标识, 请重试。", 503⟩
  | (others, token) :: attempts =>
    match insertProduct others own ⟨code, name, token⟩ with
    | .ok own => .ok own
    | .error .code => .error ⟨"duplicate_product_code", "产品编码已存在。", 409⟩
    | .error .publicToken => attemptInsert own code name attempts

/-- `create_product_in_transaction`, without an audit action. -/
def createProductInTransaction (others : Nat → List ProductRow) (draws : Nat → String)
    (own : List ProductRow) (rawCode rawName : String) : Except AppError (List ProductRow) := do
  let code ← normalizeProductCode rawCode
  let name ← normalizeProductName rawName
  attemptInsert own code name
    ((List.range tokenRetryLimit).map fun attempt => (others attempt, draws attempt))

/-- What the open transaction has come to. -/
structure Batch where
  created : List ProductRow
  successCount : Nat
  duplicateCount : Nat

/-- What ends the transaction before its commit. -/
inductive Aborted
  /-- An `AppError`, and the successes before it. -/
  | refused (error : AppError) (successCount : Nat)
  | database

/-- The loop over the candidates. -/
def createProducts (database : Database) (draws : Nat → Nat → String) (batch : Batch) :
    List (ImportCandidate × Nat) → Except Aborted Batch
  | [] => .ok batch
  | (candidate, turn) :: candidates =>
    if database.breaks turn then .error .database
    else match createProductInTransaction (database.others turn) (draws turn) batch.created
      candidate.code candidate.name with
    | .ok created =>
      createProducts database draws
        { batch with created, successCount := batch.successCount + 1 } candidates
    | .error error =>
      if error.code = "duplicate_product_code" then
        createProducts database draws
          { batch with duplicateCount := batch.duplicateCount + 1 } candidates
      else .error (.refused error batch.successCount)

/-! ## 5. The import -/

/-- `_failure_result`. -/
def failureResult (code message : String) (kind : ImportErrorKind)
    (httpStatus formatErrorCount : Nat) (errors : Option (List ImportRowError) := none) : ImportResult where
  successCount := 0
  duplicateCount := 0
  formatErrorCount := formatErrorCount
  errors := errors.getD [⟨none, message, kind⟩]
  status := .failure
  errorCode := some code
  httpStatus := httpStatus

/-- The counts that every record carries. -/
def ImportResult.counts (result : ImportResult) : Detail :=
  [("success_count", .int result.successCount), ("duplicate_count", .int result.duplicateCount),
    ("format_error_count", .int result.formatErrorCount)]

/-- `{**detail, …}`: the later values stand. -/
def Detail.updated (detail newer : Detail) : Detail :=
  detail.filter (fun field => !(newer.map Prod.fst).contains field.1) ++ newer

section Import

variable (database : Database) (actorId : Nat) (requestId : String)

/-- The record of an import. -/
def importEvent (result : ImportResult) (detail : Detail) : AuditEvent where
  action := "product_import"
  result := result.status.text
  actorType := "admin"
  actorId := some actorId
  targetType := "product_batch"
  requestId := requestId
  detail := detail

/-- `_audit_failure`, and the result that is returned then. -/
def auditFailure (result : ImportResult) (detail : Detail) : Outcome where
  ended := .ok result
  created := []
  events :=
    if database.records then
      [importEvent actorId requestId result (detail.updated result.counts)]
    else []

/-- The second `except AppError`. -/
def systemFailure (error : AppError) (successCount : Nat) : Outcome :=
  let exhausted := error.code = "token_generation_failed"
  let code := if exhausted then "token_retry_exhausted" else error.code
  let message :=
    if exhausted then "系统错误: 公开标识 token 冲突重试耗尽, 整批未导入。"
    else "系统错误: " ++ error.message
  auditFailure database actorId requestId (failureResult code message .system 503 0)
    [("reason", .text "system_error"), ("system_error_code", .text code),
      ("attempted_success_count_before_rollback", .int successCount)]

/-- The result of the second `try`. -/
def successResult (prepared : Prepared) (batch : Batch) : ImportResult where
  successCount := batch.successCount
  duplicateCount := batch.duplicateCount
  formatErrorCount := 0
  notices := prepared.notices

/-- What is recorded with it. -/
def successEvent (prepared : Prepared) (batch : Batch) : AuditEvent :=
  importEvent actorId requestId (successResult prepared batch)
    ((successResult prepared batch).counts ++
      [("upload_bytes", .int prepared.uploadBytes),
        ("decompressed_bytes", .int prepared.metrics.decompressedBytes),
        ("compression_ratio", .number prepared.metrics.compressionRatio)])

/-- The second `try`: the products and the record, in one transaction. -/
def phaseTwo (draws : Nat → Nat → String) (prepared : Prepared) : Outcome :=
  match createProducts database draws ⟨[], 0, prepared.fileDuplicateCount⟩
    prepared.candidates.zipIdx with
  | .error (.refused error successCount) =>
    systemFailure database actorId requestId error successCount
  | .error .database => ⟨.error .database, [], []⟩
  | .ok batch =>
    if database.breaks prepared.candidates.length then ⟨.error .database, [], []⟩
    else ⟨.ok (successResult prepared batch), batch.created,
      [successEvent actorId requestId prepared batch]⟩

/-- `import_products`. -/
def importProducts (s : Surroundings) (draws : Nat → Nat → String) (upload : UploadFile)
    (settings : ImportSettings) : Outcome :=
  match phaseOne s settings upload with
  | .error (.formatErrors errors) =>
    auditFailure database actorId requestId
      (failureResult "import_format_errors" "文件包含格式错误。" .format 422 errors.length
        (some errors))
      [("reason", .text "format_errors"), ("error_rows", .int errors.length)]
  | .error (.refused (.rejected r)) =>
    auditFailure database actorId requestId
      (failureResult r.code r.message (if r.formatError then .format else .security) r.statusCode
        (if r.formatError then 1 else 0))
      r.detail
  | .error (.refused (.escaped e)) => ⟨.error (.library e), [], []⟩
  | .ok prepared => phaseTwo database actorId requestId draws prepared

end Import

/-! ## 6. What survives -/

section Survival

variable (s : Surroundings) (draws : Nat → Nat → String) (upload : UploadFile)
  (settings : ImportSettings) (others : (turn attempt : Nat) → List ProductRow) (actorId : Nat)
  (requestId : String)

/-- The verdict on the container of an upload. -/
def containerOf : Except Refusal ContainerMetrics :=
  inspectXlsxContainer s.zip s.casefold upload.content settings.importMaxDecompressedBytes
    settings.importMaxCompressionRatio

/-- What an import is to end with: a result, one record of this very result, and no product where
the container is refused or the result is a failure. -/
structure Survives (outcome : Outcome) : Prop where
  recorded : ∃ result event, outcome.ended = .ok result ∧ outcome.events = [event] ∧
    event.action = "product_import" ∧ event.result = result.status.text ∧
    (∀ count ∈ result.counts, count ∈ event.detail) ∧
    (result.status = .failure → outcome.created = [])
  refused : (∃ refusal, containerOf s upload settings = .error refusal) → outcome.created = []

/-- The ZIP library raises, of an upload that is read in full, what the inspection does not
catch, and does so before anything else is found wrong. -/
def Escapes : Prop :=
  upload.content.size ≤ settings.importMaxUploadBytes ∧ hasExtension s upload.filename = true ∧
    hasSignature upload.content = true ∧
    ∃ e, RaisesUncaught s.zip s.casefold upload.content settings.importMaxDecompressedBytes
      settings.importMaxCompressionRatio e

variable {s draws upload settings others actorId requestId}

theorem mem_updated {detail newer : Detail} {field : String × DetailValue} (h : field ∈ newer) :
    field ∈ Detail.updated detail newer :=
  List.mem_append_right _ h

/-- What is recorded without touching the products is survived. -/
theorem auditFailure_survives {result : ImportResult} {detail : Detail} :
    Survives s upload settings
      (auditFailure (.available others) actorId requestId result detail) where
  recorded := by
    refine ⟨result, _, rfl, rfl, rfl, rfl, ?_, fun _ => rfl⟩
    intro count hcount
    exact mem_updated hcount
  refused := fun _ => rfl

/-- A database that does not fail is no reason to abort. -/
theorem createProducts_available {candidates : List (ImportCandidate × Nat)} :
    ∀ {batch : Batch}, createProducts (.available others) draws batch candidates ≠
      .error .database := by
  induction candidates with
  | nil => exact fun h => (nomatch h)
  | cons head candidates ih =>
    obtain ⟨candidate, turn⟩ := head
    intro batch
    rw [createProducts, if_neg (by simp [Database.available])]
    split
    · exact ih
    · split
      · exact ih
      · exact fun h => (nomatch h)

/-- What the first `try` does once the upload is read and its name is seen to be right. -/
theorem phaseOne_of_read (hsize : upload.content.size ≤ settings.importMaxUploadBytes)
    (hname : hasExtension s upload.filename = true) :
    phaseOne s settings upload = (do
      let metrics ← (containerOf s upload settings).mapError Failure.refused
      let workbook ←
        (parseXlsxWithTimeout s settings (s.worker upload.content settings)).mapError
          fun r => Failure.refused (.rejected r)
      let (candidates, fileDuplicateCount, notices) ← validateWorkbook s settings workbook
      return ⟨candidates, fileDuplicateCount, notices, metrics, upload.content.size⟩) := by
  unfold phaseOne readUploadWithLimit
  rw [if_neg (Nat.not_lt.mpr hsize)]
  simp only [Except.mapError, bind, Except.bind]
  rw [if_pos hname]
  rfl

/-- Anything else is a rejection. -/
theorem phaseOne_of_not_read (h : ¬ (upload.content.size ≤ settings.importMaxUploadBytes ∧
    hasExtension s upload.filename = true)) :
    ∃ r, phaseOne s settings upload = .error (.refused (.rejected r)) := by
  unfold phaseOne readUploadWithLimit
  by_cases hsize : upload.content.size ≤ settings.importMaxUploadBytes
  · have hname : hasExtension s upload.filename ≠ true := fun hname => h ⟨hsize, hname⟩
    rw [if_neg (Nat.not_lt.mpr hsize)]
    simp only [Except.mapError, bind, Except.bind]
    rw [if_neg hname]
    exact ⟨_, rfl⟩
  · rw [if_pos (Nat.lt_of_not_le hsize)]
    exact ⟨_, rfl⟩

/-- What the validation refuses is never an exception of the library. -/
theorem validateWorkbook_ne_escaped {workbook : ParsedWorkbook} {e : ZipError} :
    validateWorkbook s settings workbook ≠ .error (.refused (.escaped e)) := by
  unfold validateWorkbook
  dsimp only
  split
  · exact fun h => (nomatch h)
  · split
    · exact fun h => (nomatch h)
    · exact fun h => (nomatch h)
    · split
      · exact fun h => (nomatch h)
      · exact fun h => (nomatch h)

/-- The first `try` ends with an exception of the library in just one way. -/
theorem phaseOne_escaped {e : ZipError} :
    phaseOne s settings upload = .error (.refused (.escaped e)) ↔
      upload.content.size ≤ settings.importMaxUploadBytes ∧
        hasExtension s upload.filename = true ∧
        containerOf s upload settings = .error (.escaped e) := by
  by_cases hread : upload.content.size ≤ settings.importMaxUploadBytes ∧
      hasExtension s upload.filename = true
  · obtain ⟨hsize, hname⟩ := hread
    rw [phaseOne_of_read hsize hname]
    cases hcontainer : containerOf s upload settings with
    | error refusal =>
      constructor
      · intro h
        cases h
        exact ⟨hsize, hname, rfl⟩
      · rintro ⟨-, -, h⟩
        cases h
        rfl
    | ok metrics =>
      refine iff_of_false ?_ (fun h => (nomatch h.2.2))
      simp only [Except.mapError, bind, Except.bind]
      cases parseXlsxWithTimeout s settings (s.worker upload.content settings) with
      | error r => exact fun h => (nomatch h)
      | ok workbook =>
        dsimp only
        cases hvalid : validateWorkbook s settings workbook with
        | error failure =>
          intro h
          rw [Except.error.inj h] at hvalid
          exact validateWorkbook_ne_escaped hvalid
        | ok validated => exact fun h => (nomatch h)
  · refine iff_of_false ?_ (fun h => hread ⟨h.1, h.2.1⟩)
    obtain ⟨r, hr⟩ := phaseOne_of_not_read hread
    rw [hr]
    exact fun h => (nomatch h)

/-- A container that is refused never reaches the second phase. -/
theorem containerOf_of_phaseOne {prepared : Prepared}
    (h : phaseOne s settings upload = .ok prepared) :
    containerOf s upload settings = .ok prepared.metrics := by
  by_cases hread : upload.content.size ≤ settings.importMaxUploadBytes ∧
      hasExtension s upload.filename = true
  · rw [phaseOne_of_read hread.1 hread.2] at h
    cases hcontainer : containerOf s upload settings with
    | error refusal =>
      rw [hcontainer] at h
      cases h
    | ok metrics =>
      rw [hcontainer] at h
      simp only [Except.mapError, bind, Except.bind] at h
      cases hparsed : parseXlsxWithTimeout s settings (s.worker upload.content settings) with
      | error r =>
        rw [hparsed] at h
        cases h
      | ok workbook =>
        rw [hparsed] at h
        dsimp only at h
        cases hvalid : validateWorkbook s settings workbook with
        | error failure =>
          rw [hvalid] at h
          cases h
        | ok validated =>
          rw [hvalid] at h
          cases h
          rfl
  · obtain ⟨r, hr⟩ := phaseOne_of_not_read hread
    rw [hr] at h
    cases h

theorem escapes_iff :
    Escapes s upload settings ↔
      ∃ e, phaseOne s settings upload = .error (.refused (.escaped e)) := by
  simp only [phaseOne_escaped, containerOf, inspectXlsxContainer_escaped, Escapes,
    exists_and_left]

theorem phaseTwo_survives {prepared : Prepared}
    (h : phaseOne s settings upload = .ok prepared) :
    Survives s upload settings
      (phaseTwo (.available others) actorId requestId draws prepared) := by
  unfold phaseTwo
  cases hbatch : createProducts (.available others) draws ⟨[], 0, prepared.fileDuplicateCount⟩
      prepared.candidates.zipIdx with
  | error aborted =>
    cases aborted with
    | refused error successCount => exact auditFailure_survives
    | database => exact absurd hbatch createProducts_available
  | ok batch =>
    refine ⟨⟨_, _, rfl, rfl, rfl, rfl, ?_, fun h => (nomatch h)⟩, ?_⟩
    · intro count hcount
      exact List.mem_append_left _ hcount
    · rintro ⟨refusal, hrefusal⟩
      rw [containerOf_of_phaseOne h] at hrefusal
      cases hrefusal

/-- An import survives every workbook but those on which the ZIP library raises what the
inspection does not catch. -/
theorem import_survives_iff :
    Survives s upload settings
      (importProducts (.available others) actorId requestId s draws upload settings) ↔
        ¬ Escapes s upload settings := by
  rw [escapes_iff]
  unfold importProducts
  cases hphase : phaseOne s settings upload with
  | error failure =>
    cases failure with
    | formatErrors errors =>
      exact iff_of_true auditFailure_survives (by simp)
    | refused refusal =>
      cases refusal with
      | rejected r => exact iff_of_true auditFailure_survives (by simp)
      | escaped e =>
        refine iff_of_false ?_ (by simp)
        rintro ⟨⟨result, _, hresult, _⟩, _⟩
        cases hresult
  | ok prepared => exact iff_of_true (phaseTwo_survives hphase) (by simp)

end Survival

/-- A container of one member, `a.xml`, that is to inflate from the single byte 255. -/
def corruptWorkbook : Bytes := ⟨#[
  80, 75, 3, 4, 20, 0, 0, 0, 8, 0, 0, 0, 33, 0, 0, 0, 0, 0, 1, 0, 0, 0, 1, 0, 0, 0, 5, 0, 0, 0,
  97, 46, 120, 109, 108, 255,
  80, 75, 1, 2, 20, 0, 20, 0, 0, 0, 8, 0, 0, 0, 33, 0, 0, 0, 0, 0, 1, 0, 0, 0, 1, 0, 0, 0, 5, 0,
  0, 0, 0, 0, 0, 0, 0, 0, 0, 0, 0, 0, 0, 0, 0, 0, 97, 46, 120, 109, 108,
  80, 75, 5, 6, 0, 0, 0, 0, 1, 0, 1, 0, 51, 0, 0, 0, 36, 0, 0, 0, 0, 0]⟩

/-- The library lists the member, and finds an invalid block where it inflates it. -/
def corruptMember : Surroundings where
  zip := {
    infolist := fun _ => .ok [⟨"a.xml", 1, 1, 0⟩]
    read := fun _ _ => .error ⟨.zlibError, "error"⟩ }
  worker := fun _ _ => .raised "error" "Error -3 while decompressing data: invalid block type"
  casefold := fun text => String.ofList (text.toList.map Char.toLower)
  repr := fun text => "'" ++ text ++ "'"
  general := fun _ => "30"

/-- The defaults of `Settings`. -/
def defaultSettings : ImportSettings where
  importMaxUploadBytes := 10 * 1024 * 1024
  importMaxDecompressedBytes := 50 * 1024 * 1024
  importMaxCompressionRatio := 100
  importParseTimeoutSeconds := 30
  importMaxRows := 5000
  importParseMemoryBytes := 512 * 1024 * 1024

/-- The exception of a corrupt member leaves the import: nothing is returned, and nothing is
recorded. -/
theorem corrupt_member_escapes :
    corruptWorkbook.size ≤ defaultSettings.importMaxUploadBytes ∧
      hasExtension corruptMember (some "products.xlsx") = true ∧
      importProducts (.available fun _ _ => []) 1 "request" corruptMember (fun _ _ => "TOKEN")
        ⟨some "products.xlsx", corruptWorkbook⟩ defaultSettings =
          ⟨.error (.library ⟨.zlibError, "error"⟩), [], []⟩ ∧
      ¬ Survives corruptMember ⟨some "products.xlsx", corruptWorkbook⟩ defaultSettings
        (importProducts (.available fun _ _ => []) 1 "request" corruptMember (fun _ _ => "TOKEN")
          ⟨some "products.xlsx", corruptWorkbook⟩ defaultSettings) := by
  have hsize : corruptWorkbook.size ≤ defaultSettings.importMaxUploadBytes := by decide
  have hname : hasExtension corruptMember (some "products.xlsx") = true := by decide
  have hcontainer : containerOf corruptMember ⟨some "products.xlsx", corruptWorkbook⟩
      defaultSettings = .error (.escaped ⟨.zlibError, "error"⟩) := by
    refine inspectXlsxContainer_escaped.mpr ⟨by decide, ?_⟩
    exact .reading [] ⟨"a.xml", 1, 1, 0⟩ [] rfl (by decide) (by
      norm_num [compressionRatio, declaredSize, compressedSize, defaultSettings]) (by simp) rfl
      (by decide) rfl rfl
  have hphase : phaseOne corruptMember defaultSettings ⟨some "products.xlsx", corruptWorkbook⟩ =
      .error (.refused (.escaped ⟨.zlibError, "error"⟩)) :=
    phaseOne_escaped.mpr ⟨hsize, hname, hcontainer⟩
  have hrun : importProducts (.available fun _ _ => []) 1 "request" corruptMember
      (fun _ _ => "TOKEN") ⟨some "products.xlsx", corruptWorkbook⟩ defaultSettings =
        ⟨.error (.library ⟨.zlibError, "error"⟩), [], []⟩ := by
    rw [importProducts, hphase]
  refine ⟨hsize, hname, hrun, ?_⟩
  rintro ⟨⟨result, _, hresult, _⟩, _⟩
  rw [hrun] at hresult
  cases hresult

end ProductPdfQr.Importer
