/-
# The file references of a restored database

What `offline_validate` checks of the files: every file of the manifest is on disk as it was
recorded, and every file that a version of the database refers to is one of them, under the path
of its digest.  The database is what `pg_restore` left there, whatever that is.

The references are asked for without duplicates, so two of them with one path differ, and one of
the two is not in the manifest.
-/
import ProductPdfQr.Restore.Files
import ProductPdfQr.Version.Storage
import ProductPdfQr.Json.Value
import Mathlib.Data.List.Dedup

namespace ProductPdfQr.Restore.References

open BackupRecovery Files

/-! ## 1. The manifest -/

/-- An item of `manifest["files"]`, as `str` and `int` read it. -/
structure ManifestFile where
  path : String
  size : Int
  sha256 : String
  deriving DecidableEq, Repr

/-- The pieces of `file_root / path` below the root. -/
def partsOf (path : String) : Path :=
  ((Text.split '/' path.toList).filter fun piece => piece ≠ [] && piece ≠ ['.']).map String.ofList

def ManifestFile.item (file : ManifestFile) : Item where
  name := file.path
  target := partsOf file.path
  size := file.size
  sha256 := file.sha256

/-- The loop of `validate_manifest` over the files. -/
def validateFiles (paths : List String) : List ManifestFile → Except SafetyError Unit
  | [] => .ok ()
  | file :: files =>
    if file.path = "" || Text.startsWith file.path "/" || Text.hasParentPart file.path then
      .error ⟨"unsafe file path in manifest"⟩
    else if paths.contains file.path then .error ⟨"duplicate file path in manifest"⟩
    else if !Text.isSha256 file.sha256 || file.size < 0 then
      .error ⟨"invalid file identity in manifest"⟩
    else validateFiles (file.path :: paths) files

/-! ## 2. The database -/

/-- A row of `pdf_files`. -/
structure PdfFileRow where
  id : Nat
  sha256 : Option String
  sizeBytes : Option Int
  storagePath : Option String
  deriving DecidableEq

/-- A row of `pdf_versions`. -/
structure PdfVersionRow where
  id : Nat
  productId : Nat
  pdfFileId : Nat
  deriving DecidableEq

/-- A row of `products`. -/
structure ProductRow where
  id : Nat
  currentVersionId : Option Nat
  deriving DecidableEq

structure Content where
  pdfFiles : List PdfFileRow
  pdfVersions : List PdfVersionRow
  products : List ProductRow

/-- A row of the projection: what a version says about its file. -/
structure FileReference where
  storagePath : Option String
  sha256 : Option String
  sizeBytes : Option Int
  deriving DecidableEq

def PdfFileRow.reference (file : PdfFileRow) : FileReference :=
  ⟨file.storagePath, file.sha256, file.sizeBytes⟩

/-- `jsonb_build_object`, as `json.loads` reads it. -/
def FileReference.json (r : FileReference) : Json :=
  .obj [("sha256", (r.sha256.map Json.str).getD .null),
    ("size_bytes", (r.sizeBytes.map Json.int).getD .null),
    ("storage_path", (r.storagePath.map Json.str).getD .null)]

/-- `pdf_versions v JOIN pdf_files f ON f.id=v.pdf_file_id`. -/
def Content.joined (db : Content) : List (PdfVersionRow × PdfFileRow) :=
  db.pdfVersions.flatMap fun version =>
    (db.pdfFiles.filter (·.id = version.pdfFileId)).map (version, ·)

/-- `SELECT DISTINCT`, in the order that the collation gives. -/
def Content.references (db : Content) (order : FileReference → FileReference → Bool) :
    List FileReference :=
  ((db.joined.map fun row => row.2.reference).dedup).mergeSort order

/-- `_database_file_references`. -/
def databaseFileReferences (db : Content) (order : FileReference → FileReference → Bool) :
    List Json := (db.references order).map FileReference.json

/-- The count of invalid current or history references. -/
def Content.invalidReferences (db : Content) : Nat :=
  (db.joined.flatMap fun row =>
    (db.products.filter (·.id = row.1.productId)).map (row, ·)).countP fun (row, product) =>
      row.2.storagePath.isNone || row.2.sha256.isNone ||
        (product.currentVersionId = some row.1.id && row.1.productId ≠ product.id)

/-! ## 3. The checks -/

/-- The path that a reference must have. -/
def expectedStoragePath (digest : String) : String :=
  String.ofList (digest.toList.take 2) ++ "/" ++ String.ofList ((digest.toList.drop 2).take 2) ++
    "/" ++ digest ++ ".pdf"

/-- `manifest_by_path`: of two files with one path it keeps the last one. -/
def manifestByPath (files : List ManifestFile) (path : String) : Option (Int × String) :=
  (files.reverse.find? (·.path = path)).map fun file => (file.size, file.sha256)

/-- The loop body of `_validate_database_file_references`, up to the manifest path it has
seen. -/
def validateReference (files : List ManifestFile) (seen : List String) (reference : Json) :
    Except SafetyError String :=
  match reference.get "storage_path", reference.get "sha256", reference.get "size_bytes" with
  | .str storagePath, .str digest, .int size =>
    if storagePath = "" || Text.startsWith storagePath "/" || Text.hasParentPart storagePath ||
        !Text.isSha256 digest || size < 0 then
      .error ⟨"database contains an invalid PDF file identity"⟩
    else if storagePath ≠ expectedStoragePath digest then
      .error ⟨"database PDF storage path does not match its SHA-256 identity"⟩
    else if seen.contains ("files/" ++ storagePath) then
      .error ⟨"database contains duplicate PDF file identities"⟩
    else if manifestByPath files ("files/" ++ storagePath) ≠ some (size, digest) then
      .error ⟨"database-referenced PDF is missing or has a different identity"⟩
    else .ok ("files/" ++ storagePath)
  | _, _, _ => .error ⟨"database contains an invalid PDF file identity"⟩

/-- `_validate_database_file_references`, after what was seen. -/
def validateReferences (files : List ManifestFile) (seen : List String) :
    List Json → Except SafetyError Unit
  | [] => .ok ()
  | reference :: references => do
    let path ← validateReference files seen reference
    validateReferences files (path :: seen) references

def validateDatabaseFileReferences (files : List ManifestFile) (references : List Json) :
    Except SafetyError Unit := validateReferences files [] references

section
variable [Sha256]

/-- `path.is_file() and _size_and_sha256(path) == (size, sha256)`. -/
def isOnDisk (tree : Tree) (file : ManifestFile) : Bool :=
  match tree.shows (partsOf file.path) with
  | some (.file content) => sizeAndSha256 content = (file.size, file.sha256)
  | _ => false

def validateOnDisk (tree : Tree) : List ManifestFile → Except SafetyError Unit
  | [] => .ok ()
  | file :: files =>
    if isOnDisk tree file then validateOnDisk tree files
    else .error ⟨"full file validation failed"⟩

/-- What `offline_validate` checks of the files. -/
def validateFileState (files : List ManifestFile) (tree : Tree) (db : Content)
    (order : FileReference → FileReference → Bool) : Except SafetyError Unit := do
  validateOnDisk tree files
  validateDatabaseFileReferences files (databaseFileReferences db order)
  if db.invalidReferences ≠ 0 then
    .error ⟨"database contains an invalid current/history reference"⟩
  else .ok ()

/-- What `offline_validate` does between its look at the stage and its advance. -/
def validateOffline (files : List ManifestFile) (tree : Tree) (db : Content)
    (order : FileReference → FileReference → Bool) (assertionsHold : Bool) :
    Except SafetyError Unit := do
  validateOnDisk tree files
  if !assertionsHold then
    .error ⟨"database counts, relations, or audit projection changed"⟩
  else do
    validateDatabaseFileReferences files (databaseFileReferences db order)
    if db.invalidReferences ≠ 0 then
      .error ⟨"database contains an invalid current/history reference"⟩
    else .ok ()

/-- It checks the files and the assertions. -/
theorem validateOffline_eq_ok {files : List ManifestFile} {tree : Tree} {db : Content}
    {order : FileReference → FileReference → Bool} {assertionsHold : Bool} :
    validateOffline files tree db order assertionsHold = .ok () ↔
      assertionsHold = true ∧ validateFileState files tree db order = .ok () := by
  unfold validateOffline validateFileState
  cases validateOnDisk tree files with
  | error e => exact ⟨fun h => (nomatch h), fun h => (nomatch h.2)⟩
  | ok u =>
    cases assertionsHold with
    | false => exact ⟨fun h => (nomatch h), fun h => (nomatch h.1)⟩
    | true => exact ⟨fun h => ⟨rfl, h⟩, fun h => h.2⟩

end

/-! ## 4. What a validated manifest is -/

/-- What the loop of the validator leaves of the files. -/
structure Validated (paths : List String) (files : List ManifestFile) : Prop where
  digests : ∀ file ∈ files, Text.isSha256 file.sha256 = true
  sizes : ∀ file ∈ files, 0 ≤ file.size
  distinct : (files.map ManifestFile.path).Nodup
  fresh : ∀ file ∈ files, file.path ∉ paths

theorem validated_of_ok {paths : List String} {files : List ManifestFile}
    (h : validateFiles paths files = .ok ()) : Validated paths files := by
  induction files generalizing paths with
  | nil => exact ⟨by simp, by simp, by simp, by simp⟩
  | cons file files ih =>
    rw [validateFiles] at h
    split at h
    · cases h
    · split at h
      · cases h
      · rename_i hfresh
        split at h
        · cases h
        · rename_i hidentity
          have hrest := ih h
          rw [Bool.or_eq_true, not_or] at hidentity
          rw [List.contains_iff_mem] at hfresh
          refine ⟨?_, ?_, ?_, ?_⟩
          · exact List.forall_mem_cons.mpr ⟨by simpa using hidentity.1, hrest.digests⟩
          · exact List.forall_mem_cons.mpr ⟨by simpa using hidentity.2, hrest.sizes⟩
          · refine List.nodup_cons.mpr ⟨fun hmem => ?_, hrest.distinct⟩
            obtain ⟨other, hother, heq⟩ := List.mem_map.mp hmem
            exact hrest.fresh other hother (heq ▸ List.mem_cons_self)
          · refine List.forall_mem_cons.mpr ⟨hfresh, fun other hother hmem => ?_⟩
            exact hrest.fresh other hother (List.mem_cons_of_mem _ hmem)

/-- With distinct paths the dict has the files, all of them. -/
theorem manifestByPath_eq_some {paths : List String} {files : List ManifestFile}
    (hvalid : Validated paths files) {path : String} {size : Int} {digest : String} :
    manifestByPath files path = some (size, digest) ↔ ⟨path, size, digest⟩ ∈ files := by
  rw [manifestByPath, Option.map_eq_some_iff]
  constructor
  · rintro ⟨file, hfound, heq⟩
    have hpath : file.path = path := by simpa using List.find?_some hfound
    have hmem := List.mem_reverse.mp (List.mem_of_find?_eq_some hfound)
    obtain ⟨rfl, rfl⟩ := Prod.mk.inj heq
    rw [← hpath]
    exact hmem
  · intro hmem
    obtain ⟨file, hfile⟩ : ∃ file, files.reverse.find? (·.path = path) = some file := by
      rw [← Option.isSome_iff_exists, List.find?_isSome]
      exact ⟨_, List.mem_reverse.mpr hmem, by simp⟩
    refine ⟨file, hfile, ?_⟩
    have hpath : file.path = path := by simpa using List.find?_some hfile
    have hmem' := List.mem_reverse.mp (List.mem_of_find?_eq_some hfile)
    rw [List.inj_on_of_nodup_map hvalid.distinct hmem' hmem hpath]

/-! ## 5. Canonical paths -/

theorem expectedStoragePath_eq (digest : String) :
    expectedStoragePath digest = Version.relativePathForHash digest := by
  simp [expectedStoragePath, Version.relativePathForHash, ← String.toList_inj]

theorem toList_expectedStoragePath (digest : String) :
    (expectedStoragePath digest).toList = digest.toList.take 2 ++ '/' ::
      ((digest.toList.drop 2).take 2 ++ '/' :: (digest.toList ++ ".pdf".toList)) := by
  rw [expectedStoragePath_eq, Version.relativePathForHash, String.toList_ofList]

theorem not_hexDigit_dot : Text.isHexDigit '.' = false := by decide

theorem not_hexDigit_slash : Text.isHexDigit '/' = false := by decide

/-- A canonical path passes the checks that keep a path inside the root. -/
theorem expectedStoragePath_safe {digest : String} (h : Text.isSha256 digest = true) :
    expectedStoragePath digest ≠ "" ∧ Text.startsWith (expectedStoragePath digest) "/" = false ∧
      Text.hasParentPart (expectedStoragePath digest) = false := by
  obtain ⟨hlength, hhex⟩ := Text.isHex_iff.mp h
  have hslash : ∀ {cs : List Char}, (∀ c ∈ cs, c ∈ digest.toList) → '/' ∉ cs := by
    intro cs hcs hmem
    have := hhex _ (hcs _ hmem)
    rw [not_hexDigit_slash] at this
    cases this
  have hdots : ∀ {cs : List Char}, (∀ c ∈ cs, c ∈ digest.toList) → cs ≠ ['.', '.'] := by
    rintro cs hcs rfl
    have := hhex '.' (hcs _ (by simp))
    rw [not_hexDigit_dot] at this
    cases this
  have hfirst : ∀ c ∈ digest.toList.take 2, c ∈ digest.toList := fun c => List.mem_of_mem_take
  have hsecond : ∀ c ∈ (digest.toList.drop 2).take 2, c ∈ digest.toList :=
    fun c hc => List.mem_of_mem_drop (List.mem_of_mem_take hc)
  have hlast : '/' ∉ digest.toList ++ ".pdf".toList := by
    intro hmem
    rcases List.mem_append.mp hmem with hmem | hmem
    · exact hslash (fun c hc => hc) hmem
    · exact absurd hmem (by decide)
  obtain ⟨c, rest, hc⟩ : ∃ c rest, digest.toList = c :: rest := by
    cases hlist : digest.toList with
    | nil => rw [hlist] at hlength; cases hlength
    | cons c rest => exact ⟨c, rest, rfl⟩
  refine ⟨?_, ?_, ?_⟩
  · intro hempty
    have := congrArg String.toList hempty
    rw [toList_expectedStoragePath, hc] at this
    cases this
  · rw [Text.startsWith, toList_expectedStoragePath, hc]
    have hne : ('/' == c) = false := by
      rw [beq_eq_false_iff_ne]
      rintro rfl
      exact hslash (fun c hc => hc) (hc ▸ List.mem_cons_self)
    simp [List.isPrefixOf, hne]
  · rw [Text.hasParentPart, toList_expectedStoragePath, split_append (hslash hfirst),
      split_append (hslash hsecond), split_of_not_mem hlast]
    have hlong : digest.toList ++ ".pdf".toList ≠ ['.', '.'] := by
      intro heq
      have := congrArg List.length heq
      rw [List.length_append, hlength] at this
      cases this
    rw [Bool.eq_false_iff, ne_eq, List.contains_iff_mem]
    simp only [List.mem_cons, List.not_mem_nil, or_false, not_or]
    exact ⟨(hdots hfirst).symm, (hdots hsecond).symm, hlong.symm⟩

/-! ## 6. References -/

/-- The file that a reference names is in the manifest, under the path of its digest, as the
reference describes it. -/
def FileReference.Listed (files : List ManifestFile) (r : FileReference) : Prop :=
  ∃ digest size, r = ⟨some (Version.relativePathForHash digest), some digest, some size⟩ ∧
    ⟨"files/" ++ Version.relativePathForHash digest, size, digest⟩ ∈ files

/-- Where in the manifest the file of a reference is. -/
def FileReference.manifestPath (r : FileReference) : String := "files/" ++ r.storagePath.getD ""

theorem json_storagePath (r : FileReference) :
    r.json.get "storage_path" = (r.storagePath.map Json.str).getD .null := by
  simp [FileReference.json, Json.get, Json.get?, Json.lookupField]

theorem json_sha256 (r : FileReference) :
    r.json.get "sha256" = (r.sha256.map Json.str).getD .null := by
  simp [FileReference.json, Json.get, Json.get?, Json.lookupField]

theorem json_sizeBytes (r : FileReference) :
    r.json.get "size_bytes" = (r.sizeBytes.map Json.int).getD .null := by
  simp [FileReference.json, Json.get, Json.get?, Json.lookupField]

section Checks

variable {paths : List String} {files : List ManifestFile}

/-- What the checks see is the whole reference. -/
theorem validateReference_cases {seen : List String} {r : FileReference} {path : String}
    (h : validateReference files seen r.json = .ok path) :
    ∃ digest size, r = ⟨some (expectedStoragePath digest), some digest, some size⟩ ∧
      path = r.manifestPath ∧ path ∉ seen ∧ manifestByPath files path = some (size, digest) := by
  obtain ⟨storagePath, digest, size⟩ := r
  rw [validateReference, json_storagePath, json_sha256, json_sizeBytes] at h
  rcases storagePath with _ | storagePath
  · cases h
  rcases digest with _ | digest
  · cases h
  rcases size with _ | size
  · cases h
  simp only [Option.map_some, Option.getD_some] at h
  split at h
  · cases h
  · split at h
    · cases h
    · rename_i hcanonical
      rw [not_not] at hcanonical
      split at h
      · cases h
      · rename_i hfresh
        rw [List.contains_iff_mem] at hfresh
        split at h
        · cases h
        · rename_i hlisted
          obtain rfl := Except.ok.inj h
          rw [not_not] at hlisted
          exact ⟨digest, size, by rw [hcanonical], rfl, hfresh, hlisted⟩

theorem listed_of_ok (hvalid : Validated paths files) {seen : List String} {r : FileReference}
    {path : String} (h : validateReference files seen r.json = .ok path) :
    r.Listed files ∧ path = r.manifestPath ∧ path ∉ seen := by
  obtain ⟨digest, size, rfl, hpath, hfresh, hlisted⟩ := validateReference_cases h
  refine ⟨⟨digest, size, by rw [expectedStoragePath_eq], ?_⟩, hpath, hfresh⟩
  rw [hpath] at hlisted
  rw [← expectedStoragePath_eq]
  exact (manifestByPath_eq_some hvalid).mp hlisted

theorem ok_of_listed (hvalid : Validated paths files) {seen : List String} {r : FileReference}
    (h : r.Listed files) (hfresh : r.manifestPath ∉ seen) :
    validateReference files seen r.json = .ok r.manifestPath := by
  obtain ⟨digest, size, rfl, hmem⟩ := h
  have hdigest := hvalid.digests _ hmem
  have hsize := hvalid.sizes _ hmem
  rw [← expectedStoragePath_eq] at hmem hfresh ⊢
  obtain ⟨hne, habsolute, hparent⟩ := expectedStoragePath_safe hdigest
  rw [validateReference, json_storagePath, json_sha256, json_sizeBytes]
  simp only [Option.map_some, Option.getD_some]
  have hidentity : ¬(((((expectedStoragePath digest = "" : Bool) ||
      Text.startsWith (expectedStoragePath digest) "/") ||
      Text.hasParentPart (expectedStoragePath digest)) || !Text.isSha256 digest) ||
      (size < 0 : Bool)) = true := by
    simp [hne, habsolute, hparent, hdigest, hsize]
  rw [if_neg hidentity, if_neg (by simp), if_neg (by rwa [List.contains_iff_mem]),
    if_neg (by rw [not_not]; exact (manifestByPath_eq_some hvalid).mpr hmem)]
  rfl

/-- Two listed references with one path are one. -/
theorem FileReference.Listed.eq_of_path (hvalid : Validated paths files) {r r' : FileReference}
    (h : r.Listed files) (h' : r'.Listed files) (heq : r.manifestPath = r'.manifestPath) :
    r = r' := by
  obtain ⟨digest, size, rfl, hmem⟩ := h
  obtain ⟨digest', size', rfl, hmem'⟩ := h'
  simp only [manifestPath, Option.getD_some] at heq
  obtain ⟨-, rfl, rfl⟩ := ManifestFile.mk.inj
    (List.inj_on_of_nodup_map hvalid.distinct hmem hmem' heq)
  rfl

theorem listed_of_validateReferences (hvalid : Validated paths files) {seen : List String}
    {references : List FileReference}
    (h : validateReferences files seen (references.map FileReference.json) = .ok ()) :
    ∀ r ∈ references, r.Listed files := by
  induction references generalizing seen with
  | nil => simp
  | cons r references ih =>
    rw [List.map_cons, validateReferences] at h
    cases hfirst : validateReference files seen r.json with
    | error e =>
      rw [hfirst] at h
      cases h
    | ok path =>
      rw [hfirst] at h
      exact List.forall_mem_cons.mpr ⟨(listed_of_ok hvalid hfirst).1, ih h⟩

/-- Listed references without duplicates never meet a path that was seen. -/
theorem validateReferences_of_listed (hvalid : Validated paths files) {seen : List String}
    {references : List FileReference} (hnodup : references.Nodup)
    (hfresh : ∀ r ∈ references, r.manifestPath ∉ seen) (h : ∀ r ∈ references, r.Listed files) :
    validateReferences files seen (references.map FileReference.json) = .ok () := by
  induction references generalizing seen with
  | nil => rfl
  | cons r references ih =>
    obtain ⟨hnot, hnodup⟩ := List.nodup_cons.mp hnodup
    obtain ⟨hr, hfresh⟩ := List.forall_mem_cons.mp hfresh
    obtain ⟨hlisted, hrest⟩ := List.forall_mem_cons.mp h
    rw [List.map_cons, validateReferences, ok_of_listed hvalid hlisted hr]
    refine ih hnodup (fun r' hr' => ?_) hrest
    rw [List.mem_cons, not_or]
    exact ⟨fun heq => hnot (hlisted.eq_of_path hvalid (hrest r' hr') heq.symm ▸ hr'), hfresh r' hr'⟩

end Checks

/-! ## 7. The projection -/

/-- A reference is asked for when a version refers to a file that is described so. -/
theorem mem_references {db : Content} {order : FileReference → FileReference → Bool}
    {r : FileReference} : r ∈ db.references order ↔
      ∃ version ∈ db.pdfVersions, ∃ file ∈ db.pdfFiles, file.id = version.pdfFileId ∧
        file.reference = r := by
  simp [Content.references, Content.joined, List.mem_mergeSort, and_assoc]

theorem nodup_references (db : Content) (order : FileReference → FileReference → Bool) :
    (db.references order).Nodup :=
  (List.mergeSort_perm _ _).nodup_iff.mpr (List.nodup_dedup _)

/-- Rows with a path and a digest are none of the invalid ones. -/
theorem invalidReferences_eq_zero {db : Content} {files : List ManifestFile}
    (h : ∀ version ∈ db.pdfVersions, ∀ file ∈ db.pdfFiles, file.id = version.pdfFileId →
      file.reference.Listed files) : db.invalidReferences = 0 := by
  rw [Content.invalidReferences, List.countP_eq_zero]
  rintro ⟨⟨version, file⟩, product⟩ hmem
  simp only [Content.joined, List.mem_flatMap, List.mem_map, List.mem_filter,
    decide_eq_true_eq, Prod.mk.injEq] at hmem
  obtain ⟨_, ⟨_, hversion, _, ⟨hfile, hid⟩, rfl⟩, _, ⟨-, hproduct⟩, ⟨rfl, rfl⟩, rfl⟩ := hmem
  obtain ⟨digest, size, heq, -⟩ := h version hversion file hfile hid
  obtain ⟨hpath, hdigest, -⟩ := FileReference.mk.inj heq
  simp only [hpath, hdigest, hproduct]
  simp

/-! ## 8. What the checks accept -/

section Accepts

variable [Sha256]

theorem isOnDisk_iff {tree : Tree} {file : ManifestFile} :
    isOnDisk tree file = true ↔ Matches tree file.item := by
  unfold isOnDisk Matches
  rw [ManifestFile.item]
  dsimp only
  split
  · rename_i content hshown
    simp [hshown]
  · rename_i hshown
    simp only [Bool.false_eq_true, false_iff, not_exists, not_and]
    exact fun content hcontent => absurd hcontent (hshown content)

theorem validateOnDisk_eq_ok {tree : Tree} {files : List ManifestFile} :
    validateOnDisk tree files = .ok () ↔ ∀ file ∈ files, Matches tree file.item := by
  induction files with
  | nil => simp [validateOnDisk]
  | cons file files ih =>
    rw [validateOnDisk, List.forall_mem_cons, ← isOnDisk_iff, ← ih]
    split
    · rename_i hfile
      exact ⟨fun h => ⟨hfile, h⟩, fun h => h.2⟩
    · rename_i hfile
      exact ⟨fun h => (nomatch h), fun h => absurd h.1 hfile⟩

theorem validateFileState_parts {files : List ManifestFile} {tree : Tree} {db : Content}
    {order : FileReference → FileReference → Bool} :
    validateFileState files tree db order = .ok () ↔
      validateOnDisk tree files = .ok () ∧
        validateDatabaseFileReferences files (databaseFileReferences db order) = .ok () ∧
        db.invalidReferences = 0 := by
  unfold validateFileState
  cases validateOnDisk tree files with
  | error e => exact ⟨fun h => (nomatch h), fun h => (nomatch h.1)⟩
  | ok u =>
    cases validateDatabaseFileReferences files (databaseFileReferences db order) with
    | error e => exact ⟨fun h => (nomatch h), fun h => (nomatch h.2.1)⟩
    | ok u' =>
      by_cases hcount : db.invalidReferences = 0
      · exact ⟨fun _ => ⟨rfl, rfl, hcount⟩, fun _ => if_neg (not_not.mpr hcount)⟩
      · refine ⟨fun h => ?_, fun h => absurd h.2.2 hcount⟩
        exact absurd ((if_pos hcount).symm.trans h) (fun h => (nomatch h))

/-- What the files of a version are to be. -/
def VersionsListed (files : List ManifestFile) (db : Content) : Prop :=
  ∀ version ∈ db.pdfVersions, ∀ file ∈ db.pdfFiles, file.id = version.pdfFileId →
    file.reference.Listed files

theorem validateFileState_eq_ok {paths : List String} {files : List ManifestFile}
    (hvalid : Validated paths files) {tree : Tree} {db : Content}
    {order : FileReference → FileReference → Bool} :
    validateFileState files tree db order = .ok () ↔
      (∀ file ∈ files, Matches tree file.item) ∧ VersionsListed files db := by
  have hrefs : (∀ r ∈ db.references order, r.Listed files) ↔ VersionsListed files db := by
    constructor
    · exact fun h version hversion file hfile hid =>
        h _ (mem_references.mpr ⟨version, hversion, file, hfile, hid, rfl⟩)
    · intro h r hr
      obtain ⟨version, hversion, file, hfile, hid, rfl⟩ := mem_references.mp hr
      exact h version hversion file hfile hid
  rw [validateFileState_parts, validateOnDisk_eq_ok]
  constructor
  · rintro ⟨hdisk, hchecked, -⟩
    exact ⟨hdisk, hrefs.mp (listed_of_validateReferences hvalid hchecked)⟩
  · rintro ⟨hdisk, hlisted⟩
    exact ⟨hdisk, validateReferences_of_listed hvalid (nodup_references db order) (by simp)
      (hrefs.mpr hlisted), invalidReferences_eq_zero hlisted⟩

/-- **Offline validation.**  The file checks accept exactly when the files of the manifest are on
disk and those of the versions are among them; then each version has its file. -/
theorem offline_validation_exact {files : List ManifestFile} (hfiles : validateFiles [] files = .ok ())
    (tree : Tree) (db : Content) (order : FileReference → FileReference → Bool) :
    (validateFileState files tree db order = .ok () ↔
      (∀ file ∈ files, Matches tree file.item) ∧ VersionsListed files db) ∧
    (validateFileState files tree db order = .ok () →
      ∀ version ∈ db.pdfVersions, ∀ file ∈ db.pdfFiles, file.id = version.pdfFileId →
        ∃ digest content, file.sha256 = some digest ∧
          file.storagePath = some (Version.relativePathForHash digest) ∧
          tree.shows (partsOf ("files/" ++ Version.relativePathForHash digest)) =
            some (.file content) ∧ hexdigest content = digest) := by
  have hexact := @validateFileState_eq_ok _ _ _ (validated_of_ok hfiles) tree db order
  refine ⟨hexact, fun hok version hversion file hfile hid => ?_⟩
  obtain ⟨hdisk, hlisted⟩ := hexact.mp hok
  obtain ⟨digest, size, heq, hmem⟩ := hlisted version hversion file hfile hid
  obtain ⟨hpath, hdigest, -⟩ := FileReference.mk.inj heq
  obtain ⟨content, hshown, hmatches⟩ := hdisk _ hmem
  exact ⟨digest, content, hdigest, hpath, hshown, (Prod.mk.inj hmatches).2⟩

end Accepts

/-! ### Two products that share a file -/

section Shared

def sharedDigest : String := "0000000000000000000000000000000000000000000000000000000000000000"

def sharedFile : ManifestFile where
  path := "files/" ++ Version.relativePathForHash sharedDigest
  size := 0
  sha256 := sharedDigest

def sharedTree : Tree := fun path =>
  if path = partsOf sharedFile.path then some (.file .empty) else none

def sharedContent : Content where
  pdfFiles := [⟨7, some sharedDigest, some 0, some (Version.relativePathForHash sharedDigest)⟩]
  pdfVersions := [⟨1, 1, 7⟩, ⟨2, 2, 7⟩]
  products := [⟨1, some 1⟩, ⟨2, some 2⟩]

theorem offline_validation_shared :
    @validateFileState zeroSha256 [sharedFile] sharedTree sharedContent (fun _ _ => true) =
      .ok () := by
  refine (@offline_validation_exact zeroSha256 [sharedFile] (by decide +kernel) sharedTree
    sharedContent (fun _ _ => true)).1.mpr ⟨?_, ?_⟩
  · intro file hfile
    rw [List.mem_singleton] at hfile
    subst hfile
    exact ⟨.empty, by simp [ManifestFile.item, Tree.shows, sharedTree, Node.shown, Node.file], rfl⟩
  · intro version _ file hfile _
    rw [sharedContent, List.mem_singleton] at hfile
    subst hfile
    exact ⟨sharedDigest, 0, rfl, List.mem_singleton.mpr rfl⟩

end Shared

end ProductPdfQr.Restore.References
