/-
# The container of a workbook

`inspect_xlsx_container` looks at a ZIP file before anything of it is parsed: its signature, the
sizes that it declares, and the text of every XML member.  The ZIP library may raise at two
points, where the directory is listed and where a member is read; three kinds of what it raises
are taken for a broken container.

The library is a parameter: what it lists and reads of a content, or raises.  So is `casefold`.
-/
import ProductPdfQr.Text
import Mathlib.Data.Rat.Defs
import Mathlib.Algebra.Order.Field.Rat

namespace ProductPdfQr.Importer

/-! ## 1. What the library does -/

/-- The classes of the exceptions of `zipfile` and of what it decompresses with. -/
inductive ErrorClass
  | osError
  | valueError
  | badZipFile
  /-- `zlib.error`: corrupt compressed data. -/
  | zlibError
  /-- The data ends before its declared size. -/
  | eofError
  /-- An unsupported compression method, or version. -/
  | notImplementedError
  | lzmaError
  | runtimeError
  /-- Any other. -/
  | other
  deriving DecidableEq, Repr

/-- An exception: its class and the name of its own type. -/
structure ZipError where
  isa : ErrorClass
  typeName : String
  deriving DecidableEq, Repr

/-- `except (OSError, ValueError, zipfile.BadZipFile)`. -/
def ZipError.caught (e : ZipError) : Bool :=
  e.isa = .osError || e.isa = .valueError || e.isa = .badZipFile

/-- `ZipInfo`. -/
structure Entry where
  filename : String
  fileSize : Nat
  compressSize : Nat
  flagBits : Nat
  deriving DecidableEq, Repr

structure ZipLibrary where
  /-- `ZipFile(BytesIO(content)).infolist()`. -/
  infolist : Bytes → Except ZipError (List Entry)
  /-- `archive.read(entry)`. -/
  read : Bytes → Entry → Except ZipError Bytes

/-! ## 2. Rejections -/

/-- The values of a `detail`. -/
inductive DetailValue
  | text (s : String)
  | int (n : Int)
  /-- A float. -/
  | number (x : ℚ)
  | texts (items : List String)
  | missing
  deriving DecidableEq

abbrev Detail := List (String × DetailValue)

/-- `XlsxRejected`. -/
structure XlsxRejected where
  code : String
  message : String
  detail : Detail
  statusCode : Nat := 422
  formatError : Bool := false
  deriving DecidableEq

/-- What leaves the inspection instead of the metrics. -/
inductive Refusal
  | rejected (r : XlsxRejected)
  /-- An exception that no clause catches. -/
  | escaped (e : ZipError)
  deriving DecidableEq

/-- `ContainerMetrics`. -/
structure ContainerMetrics where
  compressedBytes : Nat
  decompressedBytes : Nat
  compressionRatio : ℚ
  deriving DecidableEq

/-! ## 3. The danger pattern -/

/-- `\s`, of bytes. -/
def isBlankByte (b : UInt8) : Bool := b = 32 || (9 ≤ b && b ≤ 13)

/-- `\w`, of bytes. -/
def isWordByte (b : UInt8) : Bool :=
  (48 ≤ b && b ≤ 57) || (65 ≤ b && b ≤ 90) || (97 ≤ b && b ≤ 122) || b = 95

def lowerByte (b : UInt8) : UInt8 := if 65 ≤ b && b ≤ 90 then b + 32 else b

/-- The word, in any case, and `\b`. -/
def hasWord (word : String) (bytes : List UInt8) : Bool :=
  let word := word.toUTF8.data.toList
  (bytes.take word.length).map lowerByte = word &&
    ((bytes.drop word.length).head?.all fun b => !isWordByte b)

/-- `XML_DANGER_PATTERN`, at the front. -/
def isDangerousAt : List UInt8 → Bool
  | 60 :: 33 :: rest =>
    let rest := rest.dropWhile isBlankByte
    hasWord "doctype" rest || hasWord "entity" rest
  | _ => false

/-- `XML_DANGER_PATTERN.search`. -/
def isDangerous : List UInt8 → Bool
  | [] => false
  | b :: bytes => isDangerousAt (b :: bytes) || isDangerous bytes

/-! ## 4. The inspection -/

def xlsxSignatures : List (List UInt8) := [[80, 75, 3, 4], [80, 75, 5, 6], [80, 75, 7, 8]]

/-- `content.startswith` of one of the signatures. -/
def hasSignature (content : Bytes) : Bool :=
  xlsxSignatures.any fun signature => signature.isPrefixOf content.data.toList

def hexOf (content : Bytes) : String :=
  let digit (n : Nat) : Char := if n < 10 then Char.ofNat (48 + n) else Char.ofNat (87 + n)
  String.ofList (content.data.toList.flatMap fun b => [digit (b.toNat / 16), digit (b.toNat % 16)])

def declaredSize (entries : List Entry) : Nat := (entries.map Entry.fileSize).sum

def compressedSize (entries : List Entry) : Nat := (entries.map Entry.compressSize).sum

def compressionRatio (entries : List Entry) : ℚ :=
  declaredSize entries / max (compressedSize entries) 1

section Inspection

variable (zip : ZipLibrary) (casefold : String → String)

/-- The name ends in `.xml` or `.rels`. -/
def Entry.isXml (entry : Entry) : Bool :=
  Text.endsWith (casefold entry.filename) ".xml" || Text.endsWith (casefold entry.filename) ".rels"

/-- `entry.flag_bits & 0x1`. -/
def Entry.isEncrypted (entry : Entry) : Bool := entry.flagBits % 2 = 1

/-- The loop over the entries. -/
def inspectEntries (content : Bytes) : List Entry → Except Refusal Unit
  | [] => .ok ()
  | entry :: entries =>
    if entry.isEncrypted then
      .error (.rejected {
        code := "encrypted_xlsx_not_supported"
        message := "不支持加密的 XLSX 文件。"
        detail := [("reason", .text "encrypted_zip_entry"), ("entry", .text entry.filename)] })
    else if entry.isXml casefold then
      match zip.read content entry with
      | .error e => .error (.escaped e)
      | .ok xmlContent =>
        if isDangerous xmlContent.data.toList then
          .error (.rejected {
            code := "unsafe_xlsx_xml"
            message := "XLSX 包含不允许的 DTD 或外部实体声明。"
            detail := [("reason", .text "dtd_or_entity_declaration"),
              ("entry", .text entry.filename)] })
        else inspectEntries content entries
    else inspectEntries content entries

/-- The body of the `try`. -/
def inspectArchive (content : Bytes) (maxDecompressedBytes : Nat) (maxCompressionRatio : ℚ) :
    Except Refusal ContainerMetrics :=
  match zip.infolist content with
  | .error e => .error (.escaped e)
  | .ok entries =>
    if maxDecompressedBytes < declaredSize entries then
      .error (.rejected {
        code := "xlsx_decompressed_too_large"
        message := "XLSX 解压后内容超过 50 MB 上限。"
        detail := [("reason", .text "decompressed_size_exceeded"),
          ("actual_decompressed_bytes", .int (declaredSize entries)),
          ("max_decompressed_bytes", .int maxDecompressedBytes)]
        statusCode := 413 })
    else if maxCompressionRatio < compressionRatio entries then
      .error (.rejected {
        code := "xlsx_compression_ratio_too_high"
        message := "XLSX 压缩比超过 100:1 上限。"
        detail := [("reason", .text "compression_ratio_exceeded"),
          ("actual_compression_ratio", .number (compressionRatio entries)),
          ("max_compression_ratio", .number maxCompressionRatio)]
        statusCode := 413 })
    else match inspectEntries zip casefold content entries with
      | .error refusal => .error refusal
      | .ok () => .ok {
        compressedBytes := compressedSize entries
        decompressedBytes := declaredSize entries
        compressionRatio := compressionRatio entries }

/-- The `except` clauses. -/
def Refusal.handled : Refusal → Refusal
  | .rejected r => .rejected r
  | .escaped e =>
    if e.caught then
      .rejected {
        code := "invalid_xlsx_container"
        message := "文件不是有效的 XLSX 容器。"
        detail := [("reason", .text "invalid_zip_container"), ("error_type", .text e.typeName)] }
    else .escaped e

/-- `inspect_xlsx_container`. -/
def inspectXlsxContainer (content : Bytes) (maxDecompressedBytes : Nat)
    (maxCompressionRatio : ℚ) : Except Refusal ContainerMetrics :=
  if hasSignature content then
    (inspectArchive zip casefold content maxDecompressedBytes maxCompressionRatio).mapError
      Refusal.handled
  else
    .error (.rejected {
      code := "invalid_xlsx_signature"
      message := "文件不是有效的 XLSX (ZIP 签名不符)。"
      detail := [("reason", .text "zip_signature_mismatch"),
        ("actual_signature_hex", .text (hexOf ⟨(content.data.toList.take 4).toArray⟩))] })

/-! ## 5. What escapes -/

/-- The loop over the entries is done with an entry and goes on. -/
def Entry.passes (content : Bytes) (entry : Entry) : Prop :=
  entry.isEncrypted = false ∧ (entry.isXml casefold = true →
    ∃ xmlContent, zip.read content entry = .ok xmlContent ∧
      isDangerous xmlContent.data.toList = false)

/-- Before anything is refused, the library raises what no clause catches: where it lists the
members, or where it reads one of those XML members that the inspection comes to. -/
inductive RaisesUncaught (content : Bytes) (maxDecompressedBytes : Nat) (maxCompressionRatio : ℚ)
    (e : ZipError) : Prop
  | listing (raised : zip.infolist content = .error e) (uncaught : e.caught = false)
  | reading (before : List Entry) (entry : Entry) (further : List Entry)
      (listed : zip.infolist content = .ok (before ++ entry :: further))
      (small : declaredSize (before ++ entry :: further) ≤ maxDecompressedBytes)
      (plain : compressionRatio (before ++ entry :: further) ≤ maxCompressionRatio)
      (passed : ∀ earlier ∈ before, earlier.passes zip casefold content)
      (open' : entry.isEncrypted = false) (xml : entry.isXml casefold = true)
      (raised : zip.read content entry = .error e) (uncaught : e.caught = false)

variable {zip casefold} {content : Bytes} {maxDecompressedBytes : Nat} {maxCompressionRatio : ℚ}
  {e : ZipError}

/-- An entry that passes is followed by the others. -/
theorem inspectEntries_of_passes {entry : Entry} {entries : List Entry}
    (h : entry.passes zip casefold content) :
    inspectEntries zip casefold content (entry :: entries) =
      inspectEntries zip casefold content entries := by
  obtain ⟨hplain, hread⟩ := h
  rw [inspectEntries, hplain, if_neg Bool.false_ne_true]
  split
  · rename_i hxml
    obtain ⟨xmlContent, hcontent, hsafe⟩ := hread hxml
    rw [hcontent]
    dsimp only
    rw [hsafe, if_neg Bool.false_ne_true]
  · rfl

theorem inspectEntries_of_raises {before : List Entry} {entry : Entry} {further : List Entry}
    (hpassed : ∀ earlier ∈ before, earlier.passes zip casefold content)
    (hopen : entry.isEncrypted = false) (hxml : entry.isXml casefold = true)
    (hraised : zip.read content entry = .error e) :
    inspectEntries zip casefold content (before ++ entry :: further) = .error (.escaped e) := by
  induction before with
  | nil =>
    rw [List.nil_append, inspectEntries, hopen, if_neg Bool.false_ne_true, if_pos hxml, hraised]
  | cons first before ih =>
    obtain ⟨hfirst, hrest⟩ := List.forall_mem_cons.mp hpassed
    rw [List.cons_append, inspectEntries_of_passes hfirst, ih hrest]

theorem raises_of_inspectEntries {entries : List Entry}
    (h : inspectEntries zip casefold content entries = .error (.escaped e)) :
    ∃ before entry further, entries = before ++ entry :: further ∧
      (∀ earlier ∈ before, earlier.passes zip casefold content) ∧ entry.isEncrypted = false ∧
      entry.isXml casefold = true ∧ zip.read content entry = .error e := by
  induction entries with
  | nil => cases h
  | cons entry entries ih =>
    have hnext : entry.passes zip casefold content →
        inspectEntries zip casefold content entries = .error (.escaped e) →
        ∃ before entry' further, entry :: entries = before ++ entry' :: further ∧
          (∀ earlier ∈ before, earlier.passes zip casefold content) ∧
          entry'.isEncrypted = false ∧ entry'.isXml casefold = true ∧
          zip.read content entry' = .error e := by
      intro hpasses hrest
      obtain ⟨before, entry', further, rfl, hpassed, hfound⟩ := ih hrest
      exact ⟨entry :: before, entry', further, rfl,
        List.forall_mem_cons.mpr ⟨hpasses, hpassed⟩, hfound⟩
    rw [inspectEntries] at h
    split at h
    · cases h
    · rename_i hplain
      rw [Bool.not_eq_true] at hplain
      split at h
      · rename_i hxml
        split at h
        · rename_i raised hread
          cases h
          exact ⟨[], entry, entries, rfl, by simp, hplain, hxml, hread⟩
        · rename_i xmlContent hread
          split at h
          · cases h
          · rename_i hsafe
            exact hnext ⟨hplain, fun _ => ⟨xmlContent, hread, by simpa using hsafe⟩⟩ h
      · rename_i hxml
        exact hnext ⟨hplain, fun hxml' => absurd hxml' hxml⟩ h

theorem handled_eq_escaped {refusal : Refusal} :
    refusal.handled = .escaped e ↔ refusal = .escaped e ∧ e.caught = false := by
  cases refusal with
  | rejected r => simp [Refusal.handled]
  | escaped e' =>
    cases hcaught : e'.caught with
    | true =>
      simp only [Refusal.handled, hcaught, if_true]
      constructor
      · intro h
        cases h
      · rintro ⟨h, hnot⟩
        cases h
        rw [hcaught] at hnot
        cases hnot
    | false =>
      simp only [Refusal.handled, hcaught, Bool.false_eq_true, if_false]
      constructor
      · intro h
        cases h
        exact ⟨rfl, hcaught⟩
      · exact fun h => h.1

/-- What escapes the inspection is what the library raises where nothing catches it. -/
theorem inspectXlsxContainer_escaped :
    inspectXlsxContainer zip casefold content maxDecompressedBytes maxCompressionRatio =
        .error (.escaped e) ↔
      hasSignature content = true ∧
        RaisesUncaught zip casefold content maxDecompressedBytes maxCompressionRatio e := by
  have hmapped : ∀ {x : Except Refusal ContainerMetrics},
      x.mapError Refusal.handled = .error (.escaped e) ↔
        x = .error (.escaped e) ∧ e.caught = false := by
    intro x
    cases x with
    | ok metrics => exact ⟨fun h => (nomatch h), fun h => (nomatch h.1)⟩
    | error refusal =>
      constructor
      · intro h
        obtain ⟨rfl, hcaught⟩ := handled_eq_escaped.mp (Except.error.inj h)
        exact ⟨rfl, hcaught⟩
      · rintro ⟨h, hcaught⟩
        obtain rfl := Except.error.inj h
        exact congrArg Except.error (handled_eq_escaped.mpr ⟨rfl, hcaught⟩)
  unfold inspectXlsxContainer
  split
  · rename_i hsignature
    rw [hmapped]
    constructor
    · rintro ⟨h, hcaught⟩
      refine ⟨hsignature, ?_⟩
      unfold inspectArchive at h
      split at h
      · rename_i raised hlist
        cases h
        exact .listing hlist hcaught
      · rename_i entries hlist
        split at h
        · cases h
        · rename_i hsize
          split at h
          · cases h
          · rename_i hratio
            split at h
            · rename_i refusal hentries
              obtain rfl := Except.error.inj h
              obtain ⟨before, entry, further, rfl, hpassed, hopen, hxml, hread⟩ :=
                raises_of_inspectEntries hentries
              exact .reading before entry further hlist (Nat.le_of_not_lt hsize)
                (le_of_not_gt hratio) hpassed hopen hxml hread hcaught
            · cases h
    · rintro ⟨-, hraises⟩
      cases hraises with
      | listing raised uncaught =>
        exact ⟨by rw [inspectArchive, raised], uncaught⟩
      | reading before entry further listed small plain passed open' xml raised uncaught =>
        refine ⟨?_, uncaught⟩
        rw [inspectArchive, listed]
        dsimp only
        rw [if_neg (Nat.not_lt.mpr small), if_neg (not_lt.mpr plain),
          inspectEntries_of_raises passed open' xml raised]
  · rename_i hsignature
    exact ⟨fun h => (nomatch h), fun h => absurd h.1 hsignature⟩

end Inspection

end ProductPdfQr.Importer
