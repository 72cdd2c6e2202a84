/-
# The two builders of a watermark

`scripts/deploy_rollback/watermark.py`: one builder asks the driver for the projection of each
relation, the other cuts one document with all of them out of the output of `psql`.  Both list
the files with `inventory` and let `validate_watermark` check what they built.
-/
import ProductPdfQr.BackupRecovery.Inventory
import ProductPdfQr.DeployRollback.Lines
import ProductPdfQr.Json.Extend

namespace ProductPdfQr.DeployRollback

open Json BackupRecovery

/-! ## 1. What the builders read -/

/-- `urlsplit(database_url)`, as far as it is looked at. -/
structure DatabaseUrl where
  scheme : String
  username : Option String

/-- `os.environ`. -/
abbrev Environment := String → Option String

/-- A file root: the directory, and whether its path is a link to it. -/
structure FileRoot extends SourceRoot where
  link : Bool

/-- What PostgreSQL answers in one transaction: of each relation the rows, and their text as
`jsonb`.  That text is an array, it has no control characters, and a character that needs no
escape is written as it is. -/
structure Snapshot where
  rows : String → List Json
  text : String → List Char
  opens : ∀ relation, Bracketed (text relation)
  spells : ∀ relation, loadsText (text relation) = .ok (.arr (rows relation))
  printable : ∀ relation, ∀ c ∈ text relation, 32 ≤ c.toNat
  raw : ∀ relation c, 128 ≤ c.toNat →
    (c ∈ text relation ↔ occurs c (.arr (rows relation)) = true)

/-- The relations as the keys of a `jsonb` object are ordered: shorter ones first. -/
def documentRelations : List String :=
  ["admins", "products", "pdf_files", "audit_events", "pdf_versions", "admin_sessions"]

/-- The text of `jsonb_build_object`, of all relations. -/
def Snapshot.document (database : Snapshot) : List Char :=
  composed (documentRelations.map fun relation => (relation, database.text relation))

/-! ## 2. The builders -/

/-- The URL names a PostgreSQL server and the read-only role. -/
def acceptedUrl (url : DatabaseUrl) : Bool :=
  (url.scheme = "postgresql" || url.scheme = "postgres") && url.username = some "app_backup"

/-- The environment variable is set, and not to nothing. -/
def isSet (environment : Environment) (name : String) : Bool :=
  ((environment name).getD "") ≠ ""

/-- The environment is that of the read-only role. -/
def completeEnvironment (environment : Environment) : Bool :=
  environment "PGUSER" = some "app_backup" && isSet environment "PGHOST" &&
    isSet environment "PGDATABASE" && isSet environment "PGPASSFILE"

/-- What both check of the file root. -/
def boundedRoot (root : FileRoot) : Bool :=
  Text.isAbsolute root.path && root.path ≠ "/" && root.tree.isSome && !root.link

/-- The watermark of these digests and files. -/
def watermarkOf (relations : Fields) (files : List Json) : Json :=
  dict [("relations", dict relations), ("files", .arr files),
    ("audit_projection", (dict relations).get "audit_events")]

section Builders

variable [Sha256]

/-- The end of both builders: the files, and the check of the whole. -/
def completeWatermark (relations : Fields) (root : SourceRoot) : Except Exn Json := do
  let files ← (inventory root ["temporary"]).mapError
    fun _ => .rollbackSafety "could not build complete file watermark"
  let _ ← validateWatermark (watermarkOf relations files)
  return watermarkOf relations files

/-- `_relation_projection`, of the text the driver returned. -/
def relationProjection (relation : String) (text : List Char) : Except Exn String :=
  match loadsText text with
  | .ok projection => .ok (digestJson projection)
  | .error .surrogate => .error .unicodeError
  | .error _ => .error (.rollbackSafety s!"relation {relation} projection is invalid")

/-- `build_watermark`; there is no snapshot when the driver raises. -/
def buildWatermark (url : DatabaseUrl) (root : FileRoot) (database : Option Snapshot) :
    Except Exn Json := do
  check (acceptedUrl url)
    "watermark database URL must use the read-only app_backup role"
  check (boundedRoot root) "watermark file root must be a bounded regular directory"
  match database with
  | none => .error (.rollbackSafety "could not build read-only database watermark")
  | some database => do
    let relations ← requiredRelations.mapM fun relation => do
      let digest ← relationProjection relation (database.text relation)
      return (relation, Json.str digest)
    completeWatermark relations root.toSourceRoot

/-- The first line of `text.splitlines()` that opens an object. -/
def documentLine (stdout : List Char) : List Char :=
  ((AuditLog.splitLines (AuditLog.universalNewlines stdout)).find?
    fun line => line.head? = some '{').getD []

/-- `build_watermark_from_pg_environment`; there is no snapshot when `psql` fails. -/
def buildWatermarkFromPgEnvironment (environment : Environment) (root : FileRoot)
    (database : Option Snapshot) : Except Exn Json := do
  check (completeEnvironment environment)
    "PR2A app_backup PostgreSQL environment is incomplete"
  check (boundedRoot root) "watermark file root must be a bounded regular directory"
  match database with
  | none => .error (.rollbackSafety "could not build read-only database watermark")
  | some database =>
    match loadsText (documentLine (database.document ++ ['\n'])) with
    | .error .surrogate => .error .unicodeError
    | .error _ => .error (.rollbackSafety "psql watermark projection is invalid")
    | .ok document => do
      check (document.hasKeys requiredRelations) "psql watermark relation set is incomplete"
      completeWatermark (requiredRelations.map fun relation =>
        (relation, .str (digestJson (document.get relation)))) root.toSourceRoot

/-! ## 3. Which inventories pass -/

/-- The paths of an inventory. -/
def inventoryPaths (files : List Json) : List String :=
  files.filterMap fun item => (item.get "path").str?

theorem inventoryPaths_eq (items : List (List String × Bytes)) :
    inventoryPaths (items.map fun item => fileItem item.1 item.2) =
      (items.map Prod.fst).map posix := by
  induction items with
  | nil => rfl
  | cons item items ih =>
    have hpath : ((fileItem item.1 item.2).get "path").str? = some (posix item.1) := by
      simp [fileItem, get_dict, lookupField, str?]
    rw [List.map_cons, inventoryPaths, List.filterMap_cons, hpath]
    exact congrArg _ ih

omit [Sha256] in
/-- The path of a listed file passes. -/
theorem isManifestPath_posix {path : List String} (hne : path ≠ [])
    (h : ∀ name ∈ path, isName name = true) : isManifestPath (.str (posix path)) = true := by
  have hsplit := split_posix hne h
  have hpieces := piece_named h
  have hup : Text.hasParentPart (posix path) = false := by
    rw [Text.hasParentPart, hsplit]
    cases hmem : (pieces path).contains ['.', '.'] with
    | false => rfl
    | true => exact absurd rfl (hpieces _ (List.contains_iff_mem.mp hmem)).2
  have hstart : ∀ rest, (posix path).toList ≠ '/' :: rest := by
    intro rest heq
    rw [heq, Text.split, if_pos rfl] at hsplit
    exact (hpieces [] (hsplit ▸ List.mem_cons_self ..)).1 rfl
  have hstart' : ∀ rest, (posix path).toList ≠ '.' :: '.' :: '/' :: rest := by
    intro rest heq
    have happend := split_append (by decide : '/' ∉ ['.', '.']) rest
    rw [heq] at hsplit
    exact (hpieces ['.', '.'] (hsplit ▸ happend ▸ List.mem_cons_self ..)).2 rfl
  have hempty : posix path ≠ "" := by
    intro heq
    rw [heq] at hsplit
    exact (hpieces [] (hsplit ▸ List.mem_cons_self ..)).1 rfl
  have hslash : Text.startsWith (posix path) "/" = false := by
    cases hslash : Text.startsWith (posix path) "/" with
    | false => rfl
    | true =>
      obtain ⟨rest, hrest⟩ := List.isPrefixOf_iff_prefix.mp hslash
      exact absurd hrest.symm (hstart rest)
  have hparent : Text.startsWith (posix path) "../" = false := by
    cases hdots : Text.startsWith (posix path) "../" with
    | false => rfl
    | true =>
      obtain ⟨rest, hrest⟩ := List.isPrefixOf_iff_prefix.mp hdots
      exact absurd hrest.symm (hstart' rest)
  simp [isManifestPath, hempty, hslash, hparent, hup]

theorem validFileItem_fileItem (hhex : Sha256.HexDigests) {path : List String} (content : Bytes)
    (hne : path ≠ []) (h : ∀ name ∈ path, isName name = true) :
    validFileItem (fileItem path content) = true := by
  have hkeys : (fileItem path content).hasKeys ["path", "size", "sha256"] = true :=
    hasKeys_dict fun k => by simp
  have hpath : (fileItem path content).get "path" = .str (posix path) := by
    simp [fileItem, get_dict, lookupField]
  have hsize : (fileItem path content).get "size" = .int content.size := by
    simp [fileItem, get_dict, lookupField]
  have hdigest : (fileItem path content).get "sha256" = .str (hexdigest content) := by
    simp [fileItem, get_dict, lookupField]
  rw [validFileItem, hkeys, hpath, hsize, hdigest, isManifestPath_posix hne h]
  simp [isSize, isDigestValue, hhex content]

/-- Everything that `inventory` lists passes the check of one item. -/
theorem inventory_items (hhex : Sha256.HexDigests) {root : SourceRoot} {excluded : List String}
    {files : List Json} (h : inventory root excluded = .ok files) :
    files.all validFileItem = true := by
  obtain ⟨tree, -, rfl⟩ := inventory_ok h
  refine List.all_eq_true.mpr fun item hitem => ?_
  obtain ⟨⟨path, content⟩, hlisted, rfl⟩ := List.mem_map.mp hitem
  obtain ⟨hne, hnames⟩ := (lists_iff.mpr (List.mem_map_of_mem hlisted)).named
  exact validFileItem_fileItem hhex content hne hnames

/-- The digests of six projections. -/
def relationDigests (projections : String → Json) : Fields :=
  requiredRelations.map fun relation => (relation, .str (digestJson (projections relation)))

theorem keys_relationDigests (projections : String → Json) :
    (relationDigests projections).map Prod.fst = requiredRelations := rfl

/-- With such digests and such items, a watermark passes exactly when its paths ascend. -/
theorem validateWatermark_iff (hhex : Sha256.HexDigests) (projections : String → Json)
    {files : List Json} (hitems : files.all validFileItem = true) :
    validateWatermark (watermarkOf (relationDigests projections) files) =
      if Text.strictlySorted (inventoryPaths files) then
        .ok (digestJson (watermarkOf (relationDigests projections) files))
      else .error (.rollbackSafety "historical file manifest must be complete and canonical") := by
  let relations := dict (relationDigests projections)
  let watermark := watermarkOf (relationDigests projections) files
  have hkeys : watermark.hasKeys ["relations", "files", "audit_projection"] = true :=
    hasKeys_dict fun k => by simp
  have hrelations : watermark.get "relations" = relations := by
    simp [watermark, watermarkOf, get_dict, lookupField, relations]
  have hfiles : watermark.get "files" = .arr files := by
    simp [watermark, watermarkOf, get_dict, lookupField]
  have haudit : watermark.get "audit_projection" = relations.get "audit_events" := by
    simp [watermark, watermarkOf, get_dict, lookupField, relations]
  have hrelationKeys : relations.hasKeys requiredRelations = true :=
    hasKeys_dict fun k => by rw [keys_relationDigests]
  have hdigests : relations.fields.all (fun f => isDigestValue f.2) = true := by
    refine List.all_eq_true.mpr fun f hf => ?_
    obtain ⟨relation, -, rfl⟩ := List.mem_map.mp (mem_fields_dict hf)
    exact hhex _
  have hevents : relations.get "audit_events" = .str (digestJson (projections "audit_events")) := by
    simp [relations, relationDigests, requiredRelations, get_dict, lookupField]
  have hdigest : isDigestValue (relations.get "audit_events") = true := by
    rw [hevents]
    exact hhex _
  change validateWatermark watermark = _
  simp only [validateWatermark, hkeys, hrelations, hrelationKeys, hdigests, hfiles, haudit,
    hdigest, isList, items, hitems, check, Bool.and_self, if_true]
  cases hsorted : Text.strictlySorted (inventoryPaths files) with
  | true =>
    rw [inventoryPaths] at hsorted
    rw [hsorted]
    rfl
  | false =>
    rw [inventoryPaths] at hsorted
    rw [hsorted]
    rfl

omit [Sha256] in
/-- The files below the root, and that none overtakes another. -/
def NoneOvertaken (root : SourceRoot) (excluded : List String) : Prop :=
  ∀ tree, root.tree = some tree → tree.NoneOvertaken excluded

theorem inventory_ascends_iff {root : SourceRoot} {excluded : List String} {files : List Json}
    (h : inventory root excluded = .ok files) :
    Text.strictlySorted (inventoryPaths files) = true ↔ NoneOvertaken root excluded := by
  obtain ⟨tree, htree, rfl⟩ := inventory_ok h
  rw [inventoryPaths_eq, Text.strictlySorted, decide_eq_true_eq, pairwise_posix_iff]
  constructor
  · intro hnone tree' htree'
    rw [htree] at htree'
    exact Option.some.inj htree' ▸ hnone
  · exact fun hnone => hnone tree htree

/-- The list is in the order that the check of a watermark wants, and the watermark built of it
passes. -/
structure InventoryPasses (projections : String → Json) (files : List Json) : Prop where
  ascends : Text.strictlySorted (inventoryPaths files) = true
  accepted : ∃ digest,
    validateWatermark (watermarkOf (relationDigests projections) files) = .ok digest

/-- **Which trees pass.**  An inventory passes the check of a watermark exactly when no listed
file overtakes another. -/
theorem inventory_passes_iff (hhex : Sha256.HexDigests) {root : SourceRoot}
    {excluded : List String} {files : List Json} (h : inventory root excluded = .ok files)
    (projections : String → Json) :
    InventoryPasses projections files ↔ NoneOvertaken root excluded := by
  have hvalidate := validateWatermark_iff hhex projections (inventory_items hhex h)
  constructor
  · exact fun hpasses => (inventory_ascends_iff h).mp hpasses.ascends
  · intro hnone
    have hascends := (inventory_ascends_iff h).mpr hnone
    exact ⟨hascends, _, hvalidate.trans (if_pos hascends)⟩

end Builders

/-! ### Two files that the orders exchange -/

section

attribute [local instance] zeroSha256

/-- A file below `a`, and beside `a` a file `a-b`. -/
def dashTree : FileTree where
  nodes := [(["a"], .directory), (["a", "x"], .file ByteArray.empty),
    (["a-b"], .file ByteArray.empty)]
  named := by decide
  distinct := by decide
  closed := by decide

/-- The tree below a root. -/
def dashRoot : FileRoot := ⟨⟨"/srv/files", some dashTree⟩, false⟩

/-- Piece by piece `a/x` comes first, as a text `a-b` does. -/
theorem dash_refused : ∃ files, inventory dashRoot.toSourceRoot ["temporary"] = .ok files ∧
    ¬InventoryPasses (fun _ => .null) files :=
  ⟨_, rfl, fun h => absurd h.ascends (by decide +kernel)⟩

theorem inventory_passes_iff_dash : ∃ files,
    inventory dashRoot.toSourceRoot ["temporary"] = .ok files ∧
      (InventoryPasses (fun _ => .null) files ↔
        NoneOvertaken dashRoot.toSourceRoot ["temporary"]) :=
  ⟨_, rfl, inventory_passes_iff zeroSha256_hexDigests rfl _⟩

end

/-! ## 4. When the builders agree -/

section Agreement

variable [Sha256]

/-- The reasons for which the files alone make a builder refuse. -/
def FileGrounds (e : Exn) : Prop :=
  e = .rollbackSafety "watermark file root must be a bounded regular directory" ∨
    e = .rollbackSafety "could not build complete file watermark" ∨
    e = .rollbackSafety "historical file manifest must be complete and canonical"

/-- Both refuse on file grounds, or both return one watermark. -/
def BuildersAgree (x y : Except Exn Json) : Prop :=
  (∃ watermark, x = .ok watermark ∧ y = .ok watermark) ∨
    ∃ e e', x = .error e ∧ y = .error e' ∧ FileGrounds e ∧ FileGrounds e'

omit [Sha256] in
theorem buildersAgree_root {x y : Except Exn Json}
    (hx : x = .error (.rollbackSafety "watermark file root must be a bounded regular directory"))
    (hy : y = .error (.rollbackSafety "watermark file root must be a bounded regular directory")) :
    BuildersAgree x y :=
  .inr ⟨_, _, hx, hy, .inl rfl, .inl rfl⟩

omit [Sha256] in
theorem BuildersAgree.fileGrounds {x : Except Exn Json} {e : Exn}
    (h : BuildersAgree x (.error e)) : FileGrounds e := by
  rcases h with ⟨watermark, -, hok⟩ | ⟨-, e', -, he', -, hgrounds⟩
  · cases hok
  · exact Except.error.inj he' ▸ hgrounds

/-- The end of the builders refuses on file grounds only. -/
theorem completeWatermark_agrees (hhex : Sha256.HexDigests) (projections : String → Json)
    (root : SourceRoot) : BuildersAgree (completeWatermark (relationDigests projections) root)
      (completeWatermark (relationDigests projections) root) := by
  unfold completeWatermark
  cases hfiles : inventory root ["temporary"] with
  | error e => exact .inr ⟨_, _, rfl, rfl, .inr (.inl rfl), .inr (.inl rfl)⟩
  | ok files =>
    have hvalidate := validateWatermark_iff hhex projections (inventory_items hhex hfiles)
    simp only [Except.mapError, bind, Except.bind, hvalidate]
    by_cases hascends : Text.strictlySorted (inventoryPaths files) = true
    · rw [if_pos hascends]
      exact .inl ⟨_, rfl, rfl⟩
    · rw [if_neg hascends]
      exact .inr ⟨_, _, rfl, rfl, .inr (.inr rfl), .inr (.inr rfl)⟩

/-- The driver's builder reads every projection. -/
theorem buildWatermark_eq {url : DatabaseUrl} (hurl : acceptedUrl url = true) {root : FileRoot}
    (hroot : boundedRoot root = true) (database : Snapshot) :
    buildWatermark url root (some database) =
      completeWatermark (relationDigests fun relation => .arr (database.rows relation))
        root.toSourceRoot := by
  have hprojection : ∀ relation, relationProjection relation (database.text relation) =
      .ok (digestJson (.arr (database.rows relation))) := by
    intro relation
    rw [relationProjection, database.spells relation]
  simp only [buildWatermark, hurl, hroot, check, if_true, bind, Except.bind, pure, Except.pure,
    requiredRelations, List.mapM_cons, List.mapM_nil, hprojection, relationDigests, List.map_cons,
    List.map_nil]

omit [Sha256] in
/-- The value of the document. -/
def Snapshot.value (database : Snapshot) : Json :=
  dict (documentRelations.map fun relation => (relation, .arr (database.rows relation)))

omit [Sha256] in
theorem loadsText_document (database : Snapshot) :
    loadsText database.document = .ok database.value := by
  refine loadsText_composed (List.forall₂_map_left_iff.mpr (List.forall₂_map_right_iff.mpr ?_))
  exact List.forall₂_same.mpr fun relation _ =>
    ⟨rfl, database.opens relation, database.spells relation⟩

omit [Sha256] in
theorem hasKeys_value (database : Snapshot) : database.value.hasKeys requiredRelations = true := by
  refine hasKeys_dict fun k => ?_
  simp only [documentRelations, List.map_cons, List.map_nil, requiredRelations, List.mem_cons,
    List.not_mem_nil, or_false]
  tauto

omit [Sha256] in
theorem get_value (database : Snapshot) {relation : String} (h : relation ∈ requiredRelations) :
    database.value.get relation = .arr (database.rows relation) := by
  simp only [requiredRelations, List.mem_cons, List.not_mem_nil, or_false] at h
  rcases h with rfl | rfl | rfl | rfl | rfl | rfl <;>
    simp [Snapshot.value, documentRelations, get_dict, lookupField]

omit [Sha256] in
/-- What holds of the punctuation, of the keys and of the texts holds of the whole. -/
theorem forall_composed {P : Char → Prop} (hpunctuation : ∀ c ∈ "\x7b\x7d:, ".toList, P c)
    {parts : List (String × List Char)} (hkeys : ∀ part ∈ parts, ∀ c ∈ printStr part.1, P c)
    (htexts : ∀ part ∈ parts, ∀ c ∈ part.2, P c) : ∀ c ∈ composed parts, P c := by
  have hfield : ∀ part ∈ parts, ∀ rest : List Char, (∀ c ∈ rest, P c) →
      ∀ c ∈ printStr part.1 ++ ':' :: ' ' :: (part.2 ++ rest), P c := by
    intro part hpart rest hrest c hc
    rcases List.mem_append.mp hc with hc | hc
    · exact hkeys part hpart c hc
    rcases List.mem_cons.mp hc with rfl | hc
    · exact hpunctuation _ (by decide)
    rcases List.mem_cons.mp hc with rfl | hc
    · exact hpunctuation _ (by decide)
    rcases List.mem_append.mp hc with hc | hc
    · exact htexts part hpart c hc
    · exact hrest c hc
  have hfields : ∀ rest ⊆ parts, ∀ c ∈ composedFields rest, P c := by
    intro rest
    induction rest with
    | nil =>
      intro _ c hc
      rw [List.mem_singleton.mp hc]
      exact hpunctuation _ (by decide)
    | cons part rest ih =>
      intro hsub c hc
      obtain ⟨k, text⟩ := part
      rcases List.mem_cons.mp hc with rfl | hc
      · exact hpunctuation _ (by decide)
      rcases List.mem_cons.mp hc with rfl | hc
      · exact hpunctuation _ (by decide)
      · exact hfield _ (hsub (List.mem_cons_self ..)) _
          (ih fun x hx => hsub (List.mem_cons_of_mem _ hx)) c hc
  intro c hc
  cases parts with
  | nil =>
    rcases List.mem_cons.mp hc with rfl | hc
    · exact hpunctuation _ (by decide)
    · rw [List.mem_singleton.mp hc]
      exact hpunctuation _ (by decide)
  | cons part rest =>
    obtain ⟨k, text⟩ := part
    rcases List.mem_cons.mp hc with rfl | hc
    · exact hpunctuation _ (by decide)
    · exact hfield _ (List.mem_cons_self ..) _
        (hfields rest fun x hx => List.mem_cons_of_mem _ hx) c hc

omit [Sha256] in
theorem mem_composed_text {parts : List (String × List Char)} {part : String × List Char}
    (hpart : part ∈ parts) {c : Char} (hc : c ∈ part.2) : c ∈ composed parts := by
  have hfields : ∀ rest : List (String × List Char), part ∈ rest → c ∈ composedFields rest := by
    intro rest
    induction rest with
    | nil => exact fun h => by cases h
    | cons part' rest ih =>
      intro hmem
      obtain ⟨k, text⟩ := part'
      rcases List.mem_cons.mp hmem with rfl | hmem
      · simp [composedFields, hc]
      · simp [composedFields, ih hmem]
  cases parts with
  | nil => cases hpart
  | cons part' rest =>
    obtain ⟨k, text⟩ := part'
    rcases List.mem_cons.mp hpart with rfl | hmem
    · simp [composed, hc]
    · simp [composed, hfields rest hmem]

omit [Sha256] in
theorem printable_document (database : Snapshot) : ∀ c ∈ database.document, 32 ≤ c.toNat := by
  refine forall_composed (printable_of_all (by decide)) (fun part _ => printStr_printable _) ?_
  intro part hpart
  obtain ⟨relation, -, rfl⟩ := List.mem_map.mp hpart
  exact database.printable relation

/-- No row has a string or a key with a character that ends a line. -/
def Snapshot.Unmarked (database : Snapshot) : Prop :=
  ∀ relation ∈ requiredRelations, AuditLog.Unmarked (.arr (database.rows relation))

omit [Sha256] in
theorem oneLine_document_iff (database : Snapshot) :
    AuditLog.OneLine database.document ↔ database.Unmarked := by
  have hrelations : ∀ relation, relation ∈ requiredRelations ↔ relation ∈ documentRelations := by
    intro relation
    simp only [requiredRelations, documentRelations, List.mem_cons, List.not_mem_nil, or_false]
    tauto
  have htext : ∀ relation, AuditLog.OneLine (database.text relation) ↔
      AuditLog.Unmarked (.arr (database.rows relation)) := by
    intro relation
    rw [AuditLog.oneLine_iff (database.printable relation)]
    refine forall_congr' fun c => imp_congr_right fun hc => ?_
    rw [database.raw relation c (AuditLog.isLineMark_beyond hc), Bool.not_eq_true]
  constructor
  · intro hline relation hrelation
    refine (htext relation).mp fun c hc => hline c ?_
    exact mem_composed_text (List.mem_map_of_mem ((hrelations relation).mp hrelation)) hc
  · intro hunmarked
    have hall : ∀ {l : List Char}, l.all (fun c => !AuditLog.isLineEnd c) = true →
        ∀ c ∈ l, AuditLog.isLineEnd c = false := by
      intro l hl c hc
      simpa using List.all_eq_true.mp hl c hc
    refine forall_composed (hall (by decide)) (fun part hpart => ?_) fun part hpart => ?_
    · obtain ⟨relation, hrelation, rfl⟩ := List.mem_map.mp hpart
      have hkeys : documentRelations.all (fun relation =>
        (printStr relation).all fun c => !AuditLog.isLineEnd c) = true := by decide
      exact hall (List.all_eq_true.mp hkeys relation hrelation)
    · obtain ⟨relation, hrelation, rfl⟩ := List.mem_map.mp hpart
      exact (htext relation).mpr (hunmarked relation ((hrelations relation).mpr hrelation))

omit [Sha256] in
theorem document_bracketed (database : Snapshot) : Bracketed database.document :=
  ⟨'{', _, rfl, .inr rfl⟩

omit [Sha256] in
/-- The output of `psql` has no carriage return. -/
theorem universalNewlines_document (database : Snapshot) :
    AuditLog.universalNewlines (database.document ++ ['\n']) = database.document ++ ['\n'] := by
  refine AuditLog.universalNewlines_eq fun hmem => ?_
  rcases List.mem_append.mp hmem with hmem | hmem
  · exact absurd (printable_document database _ hmem) (by decide)
  · exact absurd (List.mem_singleton.mp hmem) (by decide)

omit [Sha256] in
/-- A line that opens the object is the one that is taken. -/
theorem documentLine_eq {database : Snapshot} {line rest : List Char} {c : Char}
    (heq : database.document ++ ['\n'] = line ++ c :: rest) (hline : AuditLog.OneLine line)
    (hc : AuditLog.isLineEnd c = true) :
    Bracketed line ∧ documentLine (database.document ++ ['\n']) = line := by
  obtain ⟨c', q, hdocument, hopen⟩ := document_bracketed database
  have hopens : c' = '{' := (List.cons.inj hdocument).1.symm
  subst hopens
  cases line with
  | nil =>
    rw [hdocument, List.cons_append, List.nil_append] at heq
    obtain ⟨rfl, -⟩ := List.cons.inj heq
    exact absurd hc (by decide)
  | cons x line =>
    have hx : x = '{' := by
      rw [hdocument, List.cons_append, List.cons_append] at heq
      exact (List.cons.inj heq).1.symm
    subst hx
    refine ⟨⟨'{', line, rfl, .inr rfl⟩, ?_⟩
    rw [documentLine, universalNewlines_document, heq, AuditLog.splitLines_line hline hc]
    rfl

omit [Sha256] in
/-- A document on one line is taken whole, and read to the rows. -/
theorem documentLine_whole {database : Snapshot} (h : database.Unmarked) :
    loadsText (documentLine (database.document ++ ['\n'])) = .ok database.value := by
  have hline := (oneLine_document_iff database).mpr h
  have heq : database.document ++ ['\n'] = database.document ++ '\n' :: [] := rfl
  rw [(documentLine_eq heq hline (by decide)).2, loadsText_document]

omit [Sha256] in
/-- Of a document on several lines the first is taken, and that is no value. -/
theorem documentLine_cut {database : Snapshot} (h : ¬database.Unmarked) :
    ∃ e, loadsText (documentLine (database.document ++ ['\n'])) = .error e := by
  obtain ⟨line, c, rest, heq, hline, hc⟩ := AuditLog.exists_line
    (fun hline => h ((oneLine_document_iff database).mp hline))
  have heq' : database.document ++ ['\n'] = line ++ c :: (rest ++ ['\n']) := by
    rw [heq, List.append_assoc, List.cons_append]
  obtain ⟨hbracketed, htaken⟩ := documentLine_eq heq' hline hc
  have hblank : skipBlanks (c :: rest) ≠ [] := by
    have hprintable := printable_document database c (by simp [heq])
    rw [AuditLog.isLineEnd_eq_mark hprintable] at hc
    have hbeyond := AuditLog.isLineMark_beyond hc
    have hnot : isBlank c = false := by
      simp only [isBlank, Bool.or_eq_false_iff, decide_eq_false_iff_not]
      refine ⟨⟨⟨?_, ?_⟩, ?_⟩, ?_⟩ <;> exact ne_ascii hbeyond (by decide)
    rw [skipBlanks_cons hnot]
    exact List.cons_ne_nil _ _
  have hwhole := loadsText_document database
  rw [heq] at hwhole
  have hno := loadsText_front hbracketed hwhole hblank
  rw [htaken]
  cases hload : loadsText line with
  | ok j => exact absurd hload (hno j)
  | error e => exact ⟨e, rfl⟩

/-- The other builder reads every projection, if the document is on one line. -/
theorem buildFromPgEnvironment_eq {environment : Environment}
    (henvironment : completeEnvironment environment = true) {root : FileRoot}
    (hroot : boundedRoot root = true) {database : Snapshot} (h : database.Unmarked) :
    buildWatermarkFromPgEnvironment environment root (some database) =
      completeWatermark (relationDigests fun relation => .arr (database.rows relation))
        root.toSourceRoot := by
  have hdigests : (requiredRelations.map fun relation =>
      (relation, Json.str (digestJson (database.value.get relation)))) =
        relationDigests fun relation => .arr (database.rows relation) :=
    List.map_congr_left fun relation hrelation => by rw [get_value database hrelation]
  simp only [buildWatermarkFromPgEnvironment, henvironment, hroot, check, if_true, bind,
    Except.bind, documentLine_whole h, hasKeys_value, hdigests]

/-- Otherwise it refuses, and not for the files. -/
theorem buildFromPgEnvironment_cut {environment : Environment}
    (henvironment : completeEnvironment environment = true) {root : FileRoot}
    (hroot : boundedRoot root = true) {database : Snapshot} (h : ¬database.Unmarked) :
    ∃ e, buildWatermarkFromPgEnvironment environment root (some database) = .error e ∧
      ¬FileGrounds e := by
  obtain ⟨e, he⟩ := documentLine_cut h
  simp only [buildWatermarkFromPgEnvironment, henvironment, hroot, check, if_true, bind,
    Except.bind, he]
  cases e with
  | surrogate => exact ⟨_, rfl, by simp [FileGrounds]⟩
  | unicode => exact ⟨_, rfl, by simp [FileGrounds]⟩
  | decode => exact ⟨_, rfl, by simp [FileGrounds]⟩

/-- **When the builders agree.**  Configured for the read-only role and run on one snapshot,
they agree exactly when the file root is refused or no row has a character that ends a line. -/
theorem builders_agree_iff (hhex : Sha256.HexDigests) {url : DatabaseUrl}
    {environment : Environment} (hurl : acceptedUrl url = true)
    (henvironment : completeEnvironment environment = true) (root : FileRoot)
    (database : Snapshot) :
    BuildersAgree (buildWatermark url root (some database))
        (buildWatermarkFromPgEnvironment environment root (some database)) ↔
      boundedRoot root = false ∨ database.Unmarked := by
  cases hroot : boundedRoot root with
  | false =>
    refine iff_of_true (buildersAgree_root ?_ ?_) (.inl rfl)
    · simp [buildWatermark, hurl, hroot, check, bind, Except.bind]
    · simp [buildWatermarkFromPgEnvironment, henvironment, hroot, check, bind, Except.bind]
  | true =>
    rw [buildWatermark_eq hurl hroot]
    by_cases h : database.Unmarked
    · rw [buildFromPgEnvironment_eq henvironment hroot h]
      exact iff_of_true (completeWatermark_agrees hhex _ _) (.inr h)
    · obtain ⟨e, he, hgrounds⟩ := buildFromPgEnvironment_cut henvironment hroot h
      rw [he]
      exact iff_of_false (fun hagree => hgrounds hagree.fileGrounds) (by simp [h])

end Agreement

/-! ### A name that falls apart -/

section

attribute [local instance] zeroSha256

/-- One product whose name has a line separator in it. -/
def separatedRows (relation : String) : List Json :=
  if relation = "products" then [dict [("name", .str "a\u2028b")]] else []

/-- Their text. -/
def separatedText (relation : String) : List Char :=
  (if relation = "products" then "[\x7b\"name\": \"a\u2028b\"\x7d]" else "[]").toList

/-- What PostgreSQL answers of that product. -/
def separated : Snapshot where
  rows := separatedRows
  text := separatedText
  opens relation := by
    unfold separatedText
    split <;> exact ⟨'[', _, rfl, .inl rfl⟩
  spells relation := by
    unfold separatedText separatedRows
    split <;> decide +kernel
  printable relation := by
    unfold separatedText
    split <;> exact printable_of_all (by decide)
  raw relation c hc := by
    unfold separatedText separatedRows
    split <;> simp [dict, insertField, occurs, occursItems, occursFields, ne_ascii hc]

/-- The URL and the environment of the read-only role. -/
def backupUrl : DatabaseUrl := ⟨"postgresql", some "app_backup"⟩

def backupEnvironment : Environment := fun name =>
  if name = "PGUSER" then some "app_backup" else some "set"

theorem separated_not_unmarked : ¬separated.Unmarked := by
  intro h
  have hoccurs := h "products" (by decide) '\u2028' (by decide)
  exact absurd hoccurs (by decide)

/-- The driver's builder returns a watermark of that product, the other one refuses. -/
theorem separated_disagree : ¬BuildersAgree
    (buildWatermark backupUrl dashRoot (some separated))
    (buildWatermarkFromPgEnvironment backupEnvironment dashRoot (some separated)) := by
  have henvironment : completeEnvironment backupEnvironment = true := by decide
  have hroot : boundedRoot dashRoot = true := by decide
  obtain ⟨e, he, hgrounds⟩ := buildFromPgEnvironment_cut henvironment hroot separated_not_unmarked
  rw [he]
  exact fun hagree => hgrounds hagree.fileGrounds

theorem builders_agree_iff_separated :
    BuildersAgree (buildWatermark backupUrl dashRoot (some separated))
        (buildWatermarkFromPgEnvironment backupEnvironment dashRoot (some separated)) ↔
      boundedRoot dashRoot = false ∨ separated.Unmarked :=
  builders_agree_iff zeroSha256_hexDigests (by decide) (by decide) dashRoot separated

end

end ProductPdfQr.DeployRollback
