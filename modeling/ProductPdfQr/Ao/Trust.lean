/-
# The trusted CI definition

`compareCiDefinition` compares what two commits say about the CI gate: some files by their
path, every file under some directories, and every file whose name, or a directory above it,
makes Python or Ruff read it.  It reads both trees from the text of `git ls-tree`, which writes
an unusual path in quotes, and the third rule is applied to that text.

`carriesTrust_wrap` says what the rule sees of a quoted path.  Its base name ends in a quote and
its first name begins with one, so `café/pyproject.toml` is not seen and neither is
`sitecustomize/é.py`.  `comparison_exact_iff` says that the comparison is exact up to these
paths, and up to a directory in the place of a file, which is refused.
-/
import Mathlib.Data.List.Dedup
import Mathlib.Data.List.Sort
import Mathlib.Data.String.Basic
import ProductPdfQr.DeployRollback.Lines
import ProductPdfQr.Digest
import ProductPdfQr.Quoting
import Std.Data.ExtTreeMap

namespace ProductPdfQr.Ao

open Text Paths Quoting DeployRollback.AuditLog

/-! ## 1. Trees -/

/-- `^[0-9a-f]{40}$`. -/
abbrev isFullSha (s : String) : Bool := isHex 40 s

/-- A path, name by name. -/
abbrev GitPath := List (List Char)

/-- What Git allows as a name: bytes, each the character with its number. -/
def ProperName (name : List Char) : Prop :=
  name ≠ [] ∧ name ≠ ['.'] ∧ '/' ∉ name ∧ ∀ c ∈ name, c.toNat < 256

theorem properName_iff {name : List Char} : ProperName name ↔
    name ≠ [] ∧ name ≠ ['.'] ∧ '/' ∉ name ∧ (name.all fun c => c.toNat < 256) = true := by
  simp [ProperName]

instance (name : List Char) : Decidable (ProperName name) :=
  decidable_of_iff _ properName_iff.symm

structure GitBlob where
  path : GitPath
  mode : String
  object : String
  deriving DecidableEq, Repr

/-- A tree of blobs, in the order in which Git lists them.  A path is the path of one of them,
and then nothing is below it. -/
structure GitTree where
  files : List GitBlob
  directory : GitPath → String
  proper : ∀ f ∈ files, f.path ≠ [] ∧ ∀ name ∈ f.path, ProperName name
  modes : ∀ f ∈ files, f.mode ≠ "" ∧ ∀ c ∈ f.mode.toList, c.isDigit = true
  objects : ∀ f ∈ files, isFullSha f.object = true
  directories : ∀ path, isFullSha (directory path) = true
  separate : ∀ f ∈ files, ∀ g ∈ files, f.path <+: g.path → f = g

namespace GitTree

/-- What the tree has at a path: mode and object. -/
def at? (t : GitTree) (path : GitPath) : Option (String × String) :=
  (t.files.find? fun f => f.path = path).map fun f => (f.mode, f.object)

/-- The path is a directory. -/
def IsDirectory (t : GitTree) (path : GitPath) : Prop :=
  ∃ f ∈ t.files, path <+: f.path ∧ f.path ≠ path

end GitTree

/-! ## 2. What Git prints -/

def pathText (path : GitPath) : List Char := quote (joined '/' path)

def entryLine (mode kind object : String) (path : GitPath) : List Char :=
  (mode ++ " " ++ kind ++ " " ++ object).toList ++ '\t' :: pathText path

def GitBlob.line (f : GitBlob) : List Char := entryLine f.mode "blob" f.object f.path

/-- `git ls-tree -r <commit> -- <path>`. -/
def GitTree.lsTreeBelow (t : GitTree) (path : GitPath) : List Char :=
  (t.files.filter fun f => path.isPrefixOf f.path).flatMap fun f => f.line ++ ['\n']

/-- `git ls-tree <commit> -- <path>`. -/
def GitTree.lsTree (t : GitTree) (path : GitPath) : List Char :=
  match t.files.find? fun f => f.path = path with
  | some f => f.line ++ ['\n']
  | none =>
    if t.files.any fun f => path.isPrefixOf f.path then
      entryLine "040000" "tree" (t.directory path) path ++ ['\n']
    else []

/-! ## 3. The definition of the gate -/

def trustedCiWorkflowPath : String := ".github/workflows/ci.yml"

def trustedCiExactPaths : List String :=
  [".coveragerc", ".coveragerc.toml", ".dockerignore", ".env.example", ".mypy.ini", ".pytest.ini",
    ".pytest.toml", ".python-version", ".ruff.toml", "Dockerfile", "Dockerfile.dockerignore",
    "GNUmakefile", "MANIFEST.in", "Makefile", "alembic.ini", "compose.override.yml",
    "compose.override.yaml", "compose.yaml", "compose.yml", "conftest.py",
    "docker-compose.override.yaml", "docker-compose.override.yml", "docker-compose.yaml",
    "docker-compose.yml", "makefile", "migrations/env.py", "migrations/script.py.mako", "mypy.ini",
    "pyproject.toml", "pytest.ini", "pytest.toml", "ruff.toml", "setup.cfg", "setup.py",
    "sitecustomize.py", "tox.ini", "usercustomize.py", "uv.lock", "uv.toml"]

def trustedCiTreePaths : List String := [".github", "docker", "scripts", "tests"]

def trustedCiRecursiveFileNames : List String :=
  [".ruff.toml", "pyproject.toml", "ruff.toml", "sitecustomize.py", "usercustomize.py"]

def trustedCiRecursiveModuleNames : List String := ["sitecustomize", "usercustomize"]

inductive TrustError where
  /-- malformed trusted CI Git tree entry -/
  | malformedEntry (line : String)
  /-- trusted CI definition entry must be a blob -/
  | notBlob (path : String)
  /-- trusted CI definition path has conflicting Git entries -/
  | conflictingEntries (path : String)
  /-- the commit returned an unexpected tree path -/
  | unexpectedPath (found path : String)
  /-- the source CI run path is not the trusted one -/
  | untrustedRunPath (path : String)
  /-- the SHA must be a full lowercase SHA -/
  | notFullSha (label : String)
  deriving DecidableEq, Repr

/-- `text.split()`. -/
def words (text : List Char) : List (List Char) :=
  (text.splitOnP isSpace).filter fun word => !word.isEmpty

/-- `_parse_tree_entry`. -/
def parseTreeEntry (line : List Char) : Except TrustError (String × String) :=
  let metadata := line.takeWhile (· ≠ '\t')
  match line.dropWhile (· ≠ '\t'), words metadata with
  | _ :: c :: path, [mode, kind, object] =>
    if kind = "blob".toList then
      .ok (String.ofList (c :: path),
        String.ofList (mode ++ ' ' :: kind ++ ' ' :: object))
    else .error (.notBlob (String.ofList (c :: path)))
  | _, _ => .error (.malformedEntry (String.ofList line))

/-- The parts of a `PurePosixPath` below its root.  The root matters to none of its uses. -/
def pathParts (text : List Char) : List (List Char) :=
  (split '/' text).filter fun part => part ≠ [] && part ≠ ['.']

/-- The rule of the full-tree scan, on the parts of a path. -/
def carriesTrust (parts : List (List Char)) : Bool :=
  let name := parts.getLastD []
  (trustedCiRecursiveFileNames.map String.toList).contains name ||
    (trustedCiRecursiveModuleNames.any fun m => (m.toList ++ ['.']).isPrefixOf name) ||
    parts.dropLast.any fun part => (trustedCiRecursiveModuleNames.map String.toList).contains part

/-- `_is_recursive_trust_path`. -/
def isRecursiveTrustPath (text : List Char) : Bool := carriesTrust (pathParts text)

/-- A Python dictionary whose keys are read in order only. -/
abbrev Definition := Std.ExtTreeMap String String

/-- `output.rstrip("\n")`. -/
def dropNewlines (output : List Char) : List Char :=
  (output.reverse.dropWhile (· = '\n')).reverse

/-- `_single_tree_entry`. -/
def singleTreeEntry (t : GitTree) (path : String) : Except TrustError (Option String) :=
  match dropNewlines (universalNewlines (t.lsTree (split '/' path.toList))) with
  | [] => .ok none
  | c :: output => do
    let (parsed, value) ← parseTreeEntry (c :: output)
    if parsed ≠ path then throw (.unexpectedPath parsed path)
    pure (some value)

/-- `_record_entry`. -/
def recordEntry (entries : Definition) (path value : String) : Except TrustError Definition :=
  match entries[path]? with
  | some existing =>
    if existing ≠ value then .error (.conflictingEntries path) else .ok (entries.insert path value)
  | none => .ok (entries.insert path value)

/-- The lines of a listing, each recorded if its path is to be. -/
def recordListing (select : List Char → Bool) (output : List Char) (entries : Definition) :
    Except TrustError Definition :=
  (splitLines (universalNewlines output)).foldlM (fun entries line => do
    let (path, value) ← parseTreeEntry line
    if select path.toList then recordEntry entries path value else pure entries) entries

/-- `_definition_entries`. -/
def definitionEntries (t : GitTree) : Except TrustError Definition := do
  let entries ← trustedCiExactPaths.foldlM (fun entries path => do
    let entry ← singleTreeEntry t path
    pure (entries.insert path (entry.getD "missing"))) (∅ : Definition)
  let entries ← recordListing isRecursiveTrustPath (t.lsTreeBelow []) entries
  trustedCiTreePaths.foldlM (fun entries root =>
    recordListing (fun _ => true) (t.lsTreeBelow [root.toList]) entries) entries

/-- `_definition_hash`. -/
def definitionHash [Sha256] (entries : Definition) : String :=
  hexdigest ((entries.toList.map fun entry =>
    entry.1 ++ "\x00" ++ entry.2 ++ "\n").foldl (· ++ ·) "").toUTF8

structure CIDefinitionComparison where
  sourceRunPath : String
  trustedDefinitionHash : String
  candidateDefinitionHash : String
  status : String
  differingPaths : List String
  trustedCommitSha : String
  candidateCommitSha : String
  deriving DecidableEq, Repr

/-- The keys of either, in order, with another value or none in the other. -/
def differingPaths (trusted candidate : Definition) : List String :=
  (((trusted.keys ++ candidate.keys).dedup).insertionSort (· ≤ ·)).filter fun path =>
    trusted[path]? ≠ candidate[path]?

def requireFullSha (value label : String) : Except TrustError Unit :=
  if isFullSha value then .ok () else .error (.notFullSha label)

/-- `compare_ci_definition`.  `trustedSha` is what `rev-parse` makes of the trusted ref, and the
two trees are those of the two commits. -/
def compareCiDefinition [Sha256] (trusted candidate : GitTree)
    (trustedSha candidateSha sourceRunPath : String) :
    Except TrustError CIDefinitionComparison := do
  requireFullSha candidateSha "candidate CI commit SHA"
  if sourceRunPath ≠ trustedCiWorkflowPath then throw (.untrustedRunPath sourceRunPath)
  requireFullSha trustedSha "trusted CI commit SHA"
  let trustedEntries ← definitionEntries trusted
  let candidateEntries ← definitionEntries candidate
  let differing := differingPaths trustedEntries candidateEntries
  let trustedHash := definitionHash trustedEntries
  let candidateHash := definitionHash candidateEntries
  let status :=
    if differing.isEmpty && trustedHash = candidateHash then "trusted" else "requires-re-review"
  pure
    { sourceRunPath
      trustedDefinitionHash := trustedHash
      candidateDefinitionHash := candidateHash
      status
      differingPaths := differing
      trustedCommitSha := trustedSha
      candidateCommitSha := candidateSha }

/-! ## 4. Listings read back -/

/-- ASCII, and no control character but the last. -/
abbrev Printable (c : Char) : Prop := 0x20 ≤ c.toNat ∧ c.toNat < 0x80

theorem Printable.ne_tab {c : Char} (h : Printable c) : c ≠ '\t' := by
  rintro rfl
  exact absurd h.1 (by decide)

theorem lineEnd_of_tab_or_printable {c : Char} (h : c = '\t' ∨ Printable c) :
    isLineEnd c = false ∧ c ≠ '\r' ∧ c ≠ '\n' := by
  rcases h with rfl | h
  · decide
  · refine ⟨?_, ?_, ?_⟩
    · have hn : c.toNat ≠ 0x85 ∧ c.toNat ≠ 0x2028 ∧ c.toNat ≠ 0x2029 := by
        have := h.2
        omega
      have := h.1
      simp only [isLineEnd, hn.1, hn.2.1, hn.2.2, decide_false, Bool.or_false, Bool.or_eq_false_iff,
        Bool.and_eq_false_iff, decide_eq_false_iff_not]
      omega
    · rintro rfl
      exact absurd h.1 (by decide)
    · rintro rfl
      exact absurd h.1 (by decide)

/-- A word of a line: no blank in it. -/
def Word (s : String) : Prop := s.toList ≠ [] ∧ ∀ c ∈ s.toList, Printable c ∧ isSpace c = false

theorem word_of_hexDigits {s : String} (hne : s.toList ≠ [])
    (h : ∀ c ∈ s.toList, isHexDigit c = true) : Word s := by
  refine ⟨hne, fun c hc => ⟨?_, isHexDigit_not_space (h c hc)⟩⟩
  obtain ⟨hl, hr⟩ := isHexDigit_ascii (h c hc)
  exact ⟨le_trans (by decide) hl, hr⟩

theorem word_of_isFullSha {s : String} (h : isFullSha s = true) : Word s := by
  obtain ⟨hlength, hhex⟩ := isHex_iff.mp h
  exact word_of_hexDigits (fun hnil => by simp [hnil] at hlength) hhex

theorem word_of_all {s : String} (hne : s.toList ≠ [])
    (h : (s.toList.all fun c => decide (Printable c) && !isSpace c) = true) : Word s :=
  ⟨hne, fun c hc => by simpa using List.all_eq_true.mp h c hc⟩

theorem word_blob : Word "blob" := word_of_all (by decide) (by decide)

theorem word_tree : Word "tree" := word_of_all (by decide) (by decide)

theorem word_directory : Word "040000" := word_of_all (by decide) (by decide)

theorem GitTree.word_mode {t : GitTree} {f : GitBlob} (hf : f ∈ t.files) : Word f.mode := by
  obtain ⟨hne, hdigits⟩ := t.modes f hf
  refine word_of_hexDigits (fun hnil => hne ?_) fun c hc => ?_
  · rw [← String.toList_inj, hnil]
    rfl
  · simp [isHexDigit, hdigits c hc]

/-- The words of a line come back. -/
theorem words_metadata {mode kind object : String} (hmode : Word mode) (hkind : Word kind)
    (hobject : Word object) :
    words (mode ++ " " ++ kind ++ " " ++ object).toList =
      [mode.toList, kind.toList, object.toList] := by
  have hsplit : ∀ {w : String}, Word w → w.toList.splitOnP isSpace = [w.toList] := fun hw =>
    List.splitOnP_eq_singleton fun c hc => (hw.2 c hc).2
  have htext : (mode ++ " " ++ kind ++ " " ++ object).toList =
      mode.toList ++ ' ' :: (kind.toList ++ ' ' :: object.toList) := by
    simp [String.toList_append]
  have hspace : isSpace ' ' = true := by decide
  rw [words, htext, List.splitOnP_append_cons _ _ hspace, List.splitOnP_append_cons _ _ hspace,
    hsplit hmode, hsplit hkind, hsplit hobject]
  simp [hmode.1, hkind.1, hobject.1]

theorem notMem_tab {mode kind object : String} (hmode : Word mode) (hkind : Word kind)
    (hobject : Word object) :
    ∀ c ∈ (mode ++ " " ++ kind ++ " " ++ object).toList, Printable c := by
  intro c hc
  have hspace : Printable ' ' := ⟨by decide, by decide⟩
  simp only [String.toList_append, List.mem_append] at hc
  rcases hc with (((hc | hc) | hc) | hc) | hc
  · exact (hmode.2 c hc).1
  · rw [List.mem_singleton.mp hc]
    exact hspace
  · exact (hkind.2 c hc).1
  · rw [List.mem_singleton.mp hc]
    exact hspace
  · exact (hobject.2 c hc).1

/-- A proper path. -/
def ProperPath (path : GitPath) : Prop := path ≠ [] ∧ ∀ name ∈ path, ProperName name

theorem ProperPath.bytes {path : GitPath} (h : ProperPath path) :
    ∀ c ∈ joined '/' path, c.toNat < 256 := by
  intro c hc
  rcases mem_joined hc with rfl | ⟨name, hname, hc⟩
  · decide
  · exact (h.2 name hname).2.2.2 c hc

theorem pathText_printable {path : GitPath} (h : ProperPath path) :
    ∀ c ∈ pathText path, Printable c := fun c hc =>
  have hbound := quote_printable h.bytes c hc
  ⟨hbound.1, hbound.2.trans (by decide)⟩

theorem ProperPath.text_ne_nil {path : GitPath} (h : ProperPath path) : pathText path ≠ [] := by
  intro hnil
  have hsplit := split_quote h.1 h.2
  rw [show quote (joined '/' path) = [] from hnil] at hsplit
  have hproper := quotedNames_proper h.2 [] (by rw [← hsplit]; exact List.mem_singleton.mpr rfl)
  exact hproper.1 rfl

theorem parseTreeEntry_entryLine {mode kind object : String} {path : GitPath} (hmode : Word mode)
    (hkind : Word kind) (hobject : Word object) (hpath : ProperPath path) :
    parseTreeEntry (entryLine mode kind object path) =
      if kind = "blob" then
        .ok (String.ofList (pathText path), mode ++ " " ++ kind ++ " " ++ object)
      else .error (.notBlob (String.ofList (pathText path))) := by
  obtain ⟨c, rest, htext⟩ := List.exists_cons_of_ne_nil hpath.text_ne_nil
  have hno : ∀ c ∈ (mode ++ " " ++ kind ++ " " ++ object).toList,
      decide (c ≠ '\t') = true := fun c hc =>
    decide_eq_true (notMem_tab hmode hkind hobject c hc).ne_tab
  have htake : (entryLine mode kind object path).takeWhile (· ≠ '\t') =
      (mode ++ " " ++ kind ++ " " ++ object).toList := by
    rw [entryLine, List.takeWhile_append_of_pos hno]
    simp
  have hdrop : (entryLine mode kind object path).dropWhile (· ≠ '\t') = '\t' :: c :: rest := by
    rw [entryLine, List.dropWhile_append_of_pos hno, htext]
    simp
  have hvalue : String.ofList (mode.toList ++ ' ' :: kind.toList ++ ' ' :: object.toList) =
      mode ++ " " ++ kind ++ " " ++ object := by
    rw [← String.toList_inj]
    simp [String.toList_append]
  simp only [parseTreeEntry, htake, hdrop, words_metadata hmode hkind hobject, htext,
    String.toList_inj, hvalue]

/-! ### The listing of a tree -/

namespace GitBlob

def key (f : GitBlob) : String := String.ofList (pathText f.path)

def value (f : GitBlob) : String := f.mode ++ " " ++ "blob" ++ " " ++ f.object

end GitBlob

section Tree

variable {t : GitTree} {f g : GitBlob}

theorem GitTree.properPath (hf : f ∈ t.files) : ProperPath f.path := t.proper f hf

theorem parse_line (hf : f ∈ t.files) : parseTreeEntry f.line = .ok (f.key, f.value) := by
  rw [GitBlob.line, parseTreeEntry_entryLine (t.word_mode hf) word_blob
    (word_of_isFullSha (t.objects f hf)) (t.properPath hf), if_pos rfl]
  rfl

theorem entryLine_chars {mode kind object : String} {path : GitPath} (hmode : Word mode)
    (hkind : Word kind) (hobject : Word object) (hpath : ProperPath path) :
    ∀ c ∈ entryLine mode kind object path, c = '\t' ∨ Printable c := by
  intro c hc
  rw [entryLine, List.mem_append, List.mem_cons] at hc
  rcases hc with hc | hc | hc
  · exact .inr (notMem_tab hmode hkind hobject c hc)
  · exact .inl hc
  · exact .inr (pathText_printable hpath c hc)

theorem line_chars (hf : f ∈ t.files) : ∀ c ∈ f.line, c = '\t' ∨ Printable c :=
  entryLine_chars (t.word_mode hf) word_blob (word_of_isFullSha (t.objects f hf)) (t.properPath hf)

/-- The lines of a listing are those that were printed. -/
theorem lines_of_listing {files : List GitBlob} (h : ∀ f ∈ files, f ∈ t.files) :
    splitLines (universalNewlines (files.flatMap fun f => f.line ++ ['\n'])) =
      files.map GitBlob.line := by
  rw [universalNewlines_eq]
  · induction files with
    | nil => rfl
    | cons f files ih =>
      have hone : OneLine f.line := fun c hc =>
        (lineEnd_of_tab_or_printable (line_chars (h f (by simp)) c hc)).1
      rw [List.flatMap_cons, List.append_assoc, List.singleton_append,
        splitLines_line hone (by decide), ih fun g hg => h g (by simp [hg]), List.map_cons]
  · intro hmem
    obtain ⟨f, hf, hmem⟩ := List.mem_flatMap.mp hmem
    rcases List.mem_append.mp hmem with hmem | hmem
    · exact (lineEnd_of_tab_or_printable (line_chars (h f hf) _ hmem)).2.1 rfl
    · exact absurd hmem (by decide)

/-- Two blobs are told apart by what Git prints for their paths. -/
theorem eq_of_key (hf : f ∈ t.files) {t' : GitTree} (hg : g ∈ t'.files) (h : f.key = g.key) :
    f.path = g.path := by
  have htext : pathText f.path = pathText g.path := String.ofList_injective h
  have hjoined := quote_inj (t.properPath hf).bytes (t'.properPath hg).bytes htext
  have hf' := split_joined (t.properPath hf).1 fun name hname =>
    ((t.properPath hf).2 name hname).2.2.1
  rw [hjoined, split_joined (t'.properPath hg).1 fun name hname =>
    ((t'.properPath hg).2 name hname).2.2.1] at hf'
  exact hf'.symm

theorem dropNewlines_line {line : List Char} (h : '\n' ∉ line) :
    dropNewlines (line ++ ['\n']) = line := by
  have hkeep : ∀ l : List Char, '\n' ∉ l → l.dropWhile (· = '\n') = l := by
    intro l hl
    cases l with
    | nil => rfl
    | cons c l => exact List.dropWhile_cons_of_neg (by simpa using fun heq => hl (by simp [heq]))
  rw [dropNewlines, List.reverse_append, List.reverse_singleton, List.singleton_append,
    List.dropWhile_cons_of_pos (by simp), hkeep _ (by simpa using h), List.reverse_reverse]

/-! ## 5. The paths of the definition -/

/-- The exact paths, name by name. -/
def exactPath (path : String) : GitPath := split '/' path.toList

theorem plain_exact : ∀ path ∈ trustedCiExactPaths, path.toList.all plain = true := by
  decide +kernel

theorem text_exactPath {path : String} (h : path ∈ trustedCiExactPaths) :
    pathText (exactPath path) = path.toList := by
  rw [pathText, exactPath, joined_split, quote_of_plain (plain_exact path h)]

theorem find?_path (hf : f ∈ t.files) : (t.files.find? fun g => g.path = f.path) = some f := by
  cases hfind : t.files.find? fun g => g.path = f.path with
  | none => simpa using List.find?_eq_none.mp hfind f hf
  | some g =>
    have hpath : g.path = f.path := by simpa using List.find?_some hfind
    rw [t.separate g (List.mem_of_find?_eq_some hfind) f hf (hpath ▸ List.prefix_refl _)]

theorem find?_path_eq_none (path : GitPath) (h : ∀ f ∈ t.files, f.path ≠ path) :
    (t.files.find? fun g => g.path = path) = none :=
  List.find?_eq_none.mpr fun f hf => by simpa using h f hf

theorem singleTreeEntry_file {path : String} (hpath : path ∈ trustedCiExactPaths)
    (hf : f ∈ t.files) (heq : f.path = exactPath path) :
    singleTreeEntry t path = .ok (some f.value) ∧ f.key = path := by
  have hkey : f.key = path := by
    rw [GitBlob.key, heq, text_exactPath hpath, String.ofList_toList]
  have hline : '\n' ∉ f.line := fun hmem =>
    (lineEnd_of_tab_or_printable (line_chars hf _ hmem)).2.2 rfl
  have hreturn : '\r' ∉ f.line ++ ['\n'] := by
    intro hmem
    rcases List.mem_append.mp hmem with hmem | hmem
    · exact (lineEnd_of_tab_or_printable (line_chars hf _ hmem)).2.1 rfl
    · exact absurd hmem (by decide)
  have houtput : dropNewlines (universalNewlines (t.lsTree (split '/' path.toList))) = f.line := by
    rw [GitTree.lsTree, show split '/' path.toList = f.path from heq.symm, find?_path hf]
    rw [universalNewlines_eq hreturn, dropNewlines_line hline]
  refine ⟨?_, hkey⟩
  have hparse := parse_line hf
  rw [singleTreeEntry, houtput]
  cases hchars : f.line with
  | nil => simp [GitBlob.line, entryLine] at hchars
  | cons c rest =>
    rw [hchars] at hparse
    simp [hparse, hkey, bind, Except.bind, pure, Except.pure]

theorem singleTreeEntry_none {path : String} (hno : ∀ f ∈ t.files, ¬exactPath path <+: f.path) :
    singleTreeEntry t path = .ok none := by
  have hfind := find?_path_eq_none (exactPath path) fun f hf heq =>
    hno f hf (heq ▸ List.prefix_refl _)
  have hany : (t.files.any fun f => (exactPath path).isPrefixOf f.path) = false :=
    List.any_eq_false.mpr fun f hf => by simpa using hno f hf
  rw [exactPath] at hfind hany
  rw [singleTreeEntry, GitTree.lsTree, hfind]
  simp [hany, dropNewlines, universalNewlines]

theorem singleTreeEntry_directory {path : String} (h : t.IsDirectory (exactPath path)) :
    ∃ e, singleTreeEntry t path = .error e := by
  obtain ⟨f, hf, hbelow, hne⟩ := h
  have hpath : ProperPath (exactPath path) := by
    refine ⟨split_ne_nil _ _, fun name hname => ?_⟩
    exact (t.properPath hf).2 name (hbelow.subset hname)
  have hfind := find?_path_eq_none (exactPath path) fun g hg heq =>
    hne (t.separate g hg f hf (heq ▸ hbelow) ▸ heq)
  have hany : (t.files.any fun f => (exactPath path).isPrefixOf f.path) = true :=
    List.any_eq_true.mpr ⟨f, hf, by simpa using hbelow⟩
  have hobject := word_of_isFullSha (t.directories (exactPath path))
  have hchars := entryLine_chars word_directory word_tree hobject hpath
  have hline : '\n' ∉ entryLine "040000" "tree" (t.directory (exactPath path)) (exactPath path) :=
    fun hmem => (lineEnd_of_tab_or_printable (hchars _ hmem)).2.2 rfl
  have hreturn : '\r' ∉ entryLine "040000" "tree" (t.directory (exactPath path))
      (exactPath path) ++ ['\n'] := by
    intro hmem
    rcases List.mem_append.mp hmem with hmem | hmem
    · exact (lineEnd_of_tab_or_printable (hchars _ hmem)).2.1 rfl
    · exact absurd hmem (by decide)
  have houtput : dropNewlines (universalNewlines (t.lsTree (exactPath path))) =
      entryLine "040000" "tree" (t.directory (exactPath path)) (exactPath path) := by
    rw [GitTree.lsTree, hfind]
    simp only [hany, if_true]
    rw [universalNewlines_eq hreturn, dropNewlines_line hline]
  have hparse := parseTreeEntry_entryLine word_directory word_tree hobject hpath
  rw [if_neg (by decide)] at hparse
  rw [singleTreeEntry, show split '/' path.toList = exactPath path from rfl, houtput]
  cases hcons : entryLine "040000" "tree" (t.directory (exactPath path)) (exactPath path) with
  | nil => simp [entryLine] at hcons
  | cons c rest =>
    rw [hcons] at hparse
    simp only [hparse]
    exact ⟨_, rfl⟩

/-! ## 6. The entries -/

/-- What the entries are once the paths of `exact` and those of `S` have been recorded. -/
structure Recorded (t : GitTree) (exact : String → Prop) (S : GitPath → Prop)
    (entries : Definition) : Prop where
  blob : ∀ f ∈ t.files, S f.path → entries[f.key]? = some f.value
  missing : ∀ path, exact path → (∀ f ∈ t.files, f.key ≠ path) → entries[path]? = some "missing"
  only : ∀ path value, entries[path]? = some value →
    (∃ f ∈ t.files, S f.path ∧ path = f.key ∧ value = f.value) ∨
      exact path ∧ (∀ f ∈ t.files, f.key ≠ path) ∧ value = "missing"

theorem getElem?_insert (entries : Definition) (path value other : String) :
    (entries.insert path value)[other]? = if path = other then some value else entries[other]? := by
  rw [Std.ExtTreeMap.getElem?_insert]
  simp

variable {exact : String → Prop} {S : GitPath → Prop} {entries : Definition}

/-- A blob is recorded. -/
theorem Recorded.insert (h : Recorded t exact S entries) (hf : f ∈ t.files) :
    Recorded t exact (fun path => S path ∨ f.path = path) (entries.insert f.key f.value) := by
  refine ⟨fun g hg hS => ?_, fun path hpath hno => ?_, fun path value hvalue => ?_⟩
  · rw [getElem?_insert]
    split
    · next heq =>
      have hpath := eq_of_key hf hg heq
      rw [t.separate f hf g hg (hpath ▸ List.prefix_refl _)]
    · next hne =>
      rcases hS with hS | heq
      · exact h.blob g hg hS
      · exact absurd (by rw [t.separate f hf g hg (heq ▸ List.prefix_refl _)]) hne
  · rw [getElem?_insert, if_neg (hno f hf)]
    exact h.missing path hpath hno
  · rw [getElem?_insert] at hvalue
    split at hvalue
    · next heq => exact .inl ⟨f, hf, .inr rfl, heq.symm, (Option.some.inj hvalue).symm⟩
    · rcases h.only path value hvalue with ⟨g, hg, hS, hkey⟩ | hmissing
      · exact .inl ⟨g, hg, .inl hS, hkey⟩
      · exact .inr hmissing

/-- Recording a blob of the tree meets no conflict. -/
theorem Recorded.recordEntry (h : Recorded t exact S entries) (hf : f ∈ t.files) :
    recordEntry entries f.key f.value = .ok (entries.insert f.key f.value) := by
  rw [Ao.recordEntry]
  cases hget : entries[f.key]? with
  | none => rfl
  | some existing =>
    have hvalue : existing = f.value := by
      rcases h.only _ _ hget with ⟨g, hg, -, hkey, rfl⟩ | ⟨-, hno, -⟩
      · rw [t.separate f hf g hg (eq_of_key hf hg hkey ▸ List.prefix_refl _)]
      · exact absurd rfl (hno f hf)
    simp [hvalue]

theorem Recorded.congr {S' : GitPath → Prop} (h : Recorded t exact S entries)
    (hS : ∀ f ∈ t.files, (S f.path ↔ S' f.path)) : Recorded t exact S' entries := by
  refine ⟨fun f hf hpath => h.blob f hf ((hS f hf).mpr hpath), h.missing,
    fun path value hvalue => ?_⟩
  rcases h.only path value hvalue with ⟨f, hf, hpath, hkey⟩ | hmissing
  · exact .inl ⟨f, hf, (hS f hf).mp hpath, hkey⟩
  · exact .inr hmissing

/-- A listing records the blobs that the rule selects. -/
theorem Recorded.recordListing (h : Recorded t exact S entries) (select : List Char → Bool)
    (files : List GitBlob) (hfiles : ∀ f ∈ files, f ∈ t.files) :
    ∃ entries', recordListing select (files.flatMap fun f => f.line ++ ['\n']) entries =
        .ok entries' ∧
      Recorded t exact (fun path => S path ∨ ∃ f ∈ files, select (pathText f.path) = true ∧
        f.path = path) entries' := by
  rw [Ao.recordListing, lines_of_listing hfiles]
  induction files generalizing S entries with
  | nil => exact ⟨entries, rfl, h.congr fun _ _ => by simp⟩
  | cons f files ih =>
    have hf := hfiles f (by simp)
    have hrest : ∀ g ∈ files, g ∈ t.files := fun g hg => hfiles g (by simp [hg])
    have hkey : f.key.toList = pathText f.path := String.toList_ofList
    rw [List.map_cons, List.foldlM_cons]
    simp only [parse_line hf, bind, Except.bind, hkey]
    cases hselect : select (pathText f.path) with
    | true =>
      simp only [if_true, h.recordEntry hf]
      obtain ⟨entries', hfold, hrecorded⟩ := ih (h.insert hf) hrest
      refine ⟨entries', hfold, hrecorded.congr fun _ _ => ?_⟩
      simp [hselect, or_assoc]
    | false =>
      obtain ⟨entries', hfold, hrecorded⟩ := ih h hrest
      refine ⟨entries', hfold, hrecorded.congr fun _ _ => ?_⟩
      simp [hselect]

/-- A path of the exact ones at which the tree has nothing. -/
theorem Recorded.insertMissing (h : Recorded t exact S entries) {path : String}
    (hno : ∀ f ∈ t.files, f.key ≠ path) :
    Recorded t (fun other => exact other ∨ path = other) S (entries.insert path "missing") := by
  refine ⟨fun f hf hS => ?_, fun other hother hno' => ?_, fun other value hvalue => ?_⟩
  · rw [getElem?_insert, if_neg (Ne.symm (hno f hf))]
    exact h.blob f hf hS
  · rw [getElem?_insert]
    split
    · rfl
    · next hne => exact h.missing other (hother.resolve_right hne) hno'
  · rw [getElem?_insert] at hvalue
    split at hvalue
    · next heq =>
      subst heq
      exact .inr ⟨.inr rfl, hno, (Option.some.inj hvalue).symm⟩
    · rcases h.only other value hvalue with hblob | ⟨hother, hrest⟩
      · exact .inl hblob
      · exact .inr ⟨.inl hother, hrest⟩

/-- One at which it has a blob. -/
theorem Recorded.addExact (h : Recorded t exact S entries) (hf : f ∈ t.files) :
    Recorded t (fun other => exact other ∨ f.key = other) S entries := by
  refine ⟨h.blob, fun other hother hno => ?_, fun other value hvalue => ?_⟩
  · rcases hother with hother | rfl
    · exact h.missing other hother hno
    · exact absurd rfl (hno f hf)
  · rcases h.only other value hvalue with hblob | ⟨hother, hrest⟩
    · exact .inl hblob
    · exact .inr ⟨.inl hother, hrest⟩

/-- A blob whose text is an exact path stands there. -/
theorem path_of_key (hf : f ∈ t.files) {path : String} (hpath : path ∈ trustedCiExactPaths)
    (h : f.key = path) : f.path = exactPath path := by
  have hplain := plain_exact path hpath
  have hbytes : ∀ c ∈ path.toList, c.toNat < 256 := by
    intro c hc
    have hc' := List.all_eq_true.mp hplain c hc
    simp only [plain, Bool.and_eq_true, decide_eq_true_eq] at hc'
    omega
  have htext : quote (joined '/' f.path) = quote path.toList := by
    rw [quote_of_plain hplain, ← h]
    exact String.toList_ofList.symm
  have hjoined := quote_inj (t.properPath hf).bytes hbytes htext
  rw [exactPath, ← hjoined, split_joined (t.properPath hf).1 fun name hname =>
    ((t.properPath hf).2 name hname).2.2.1]

/-- One of the exact paths, where no directory is. -/
theorem Recorded.single (h : Recorded t exact S entries) {path : String}
    (hpath : path ∈ trustedCiExactPaths) (hno : ¬t.IsDirectory (exactPath path)) :
    ∃ entry, singleTreeEntry t path = .ok entry ∧
      Recorded t (fun other => exact other ∨ path = other)
        (fun other => S other ∨ exactPath path = other)
        (entries.insert path (entry.getD "missing")) := by
  by_cases hfile : ∃ f ∈ t.files, f.path = exactPath path
  · obtain ⟨f, hf, heq⟩ := hfile
    obtain ⟨hsingle, rfl⟩ := singleTreeEntry_file hpath hf heq
    refine ⟨_, hsingle, ?_⟩
    rw [← heq]
    exact (h.insert hf).addExact hf
  · have hnone : ∀ g ∈ t.files, ¬exactPath path <+: g.path := by
      intro g hg hprefix
      by_cases heq : g.path = exactPath path
      · exact hfile ⟨g, hg, heq⟩
      · exact hno ⟨g, hg, hprefix, heq⟩
    refine ⟨none, singleTreeEntry_none hnone, ?_⟩
    have hkeys : ∀ g ∈ t.files, g.key ≠ path := fun g hg hkey =>
      hfile ⟨g, hg, path_of_key hg hpath hkey⟩
    refine (h.insertMissing hkeys).congr fun g hg => ?_
    have hne : exactPath path ≠ g.path := fun heq => hfile ⟨g, hg, heq.symm⟩
    simp [hne]

/-- The exact paths, one after the other. -/
theorem Recorded.exactPaths (paths : List String) (h : Recorded t exact S entries)
    (hpaths : ∀ path ∈ paths, path ∈ trustedCiExactPaths)
    (hno : ∀ path ∈ paths, ¬t.IsDirectory (exactPath path)) :
    ∃ entries', paths.foldlM (fun entries path => do
        let entry ← singleTreeEntry t path
        pure (entries.insert path (entry.getD "missing"))) entries = .ok entries' ∧
      Recorded t (fun other => exact other ∨ other ∈ paths)
        (fun other => S other ∨ ∃ path ∈ paths, exactPath path = other) entries' := by
  induction paths generalizing exact S entries with
  | nil => exact ⟨entries, rfl, by simpa using h⟩
  | cons path paths ih =>
    obtain ⟨entry, hsingle, hrecorded⟩ := h.single (hpaths path (by simp)) (hno path (by simp))
    obtain ⟨entries', hfold, hrecorded'⟩ := ih hrecorded (fun p hp => hpaths p (by simp [hp]))
      fun p hp => hno p (by simp [hp])
    refine ⟨entries', ?_, ?_⟩
    · rw [List.foldlM_cons]
      simp only [hsingle, bind, Except.bind, pure, Except.pure]
      exact hfold
    · simpa [or_assoc, eq_comm] using hrecorded'

/-- The trees of the gate, one after the other. -/
theorem Recorded.roots (roots : List String) (h : Recorded t exact S entries) :
    ∃ entries', roots.foldlM (fun entries root =>
        Ao.recordListing (fun _ => true) (t.lsTreeBelow [root.toList]) entries) entries =
          .ok entries' ∧
      Recorded t exact (fun path => S path ∨ ∃ root ∈ roots, [root.toList] <+: path) entries' := by
  induction roots generalizing S entries with
  | nil => exact ⟨entries, rfl, by simpa using h⟩
  | cons root roots ih =>
    obtain ⟨next, hlisting, hrecorded⟩ := h.recordListing (fun _ => true)
      (t.files.filter fun f => [root.toList].isPrefixOf f.path)
      fun f hf => List.mem_of_mem_filter hf
    obtain ⟨entries', hfold, hrecorded'⟩ := ih hrecorded
    refine ⟨entries', ?_, hrecorded'.congr fun f hf => ?_⟩
    · rw [List.foldlM_cons, GitTree.lsTreeBelow, hlisting]
      exact hfold
    · have hroot : (∃ g ∈ t.files.filter fun g => [root.toList].isPrefixOf g.path,
          g.path = f.path) ↔ [root.toList] <+: f.path := by
        constructor
        · rintro ⟨g, hg, heq⟩
          rw [← heq]
          exact List.isPrefixOf_iff_prefix.mp (List.mem_filter.mp hg).2
        · intro hprefix
          exact ⟨f, List.mem_filter.mpr ⟨hf, List.isPrefixOf_iff_prefix.mpr hprefix⟩, rfl⟩
      simp only [true_and, hroot, List.mem_cons, exists_eq_or_imp, or_assoc]

end Tree

/-- The paths that the function looks at. -/
def LookedAt (path : GitPath) : Prop :=
  (∃ exact ∈ trustedCiExactPaths, exactPath exact = path) ∨
    isRecursiveTrustPath (pathText path) = true ∨
      ∃ root ∈ trustedCiTreePaths, [root.toList] <+: path

/-- A directory stands in the place of a file. -/
def GitTree.Misplaced (t : GitTree) : Prop :=
  ∃ path ∈ trustedCiExactPaths, t.IsDirectory (exactPath path)

theorem recorded_empty (t : GitTree) : Recorded t (fun _ => False) (fun _ => False) ∅ :=
  ⟨fun _ _ h => h.elim, fun _ h => h.elim, fun path value h => by simp at h⟩

/-- Without such a directory the entries are those of the paths that are looked at. -/
theorem definitionEntries_ok {t : GitTree} (h : ¬t.Misplaced) :
    ∃ entries, definitionEntries t = .ok entries ∧
      Recorded t (· ∈ trustedCiExactPaths) LookedAt entries := by
  obtain ⟨entries₁, hexact, hrecorded₁⟩ := (recorded_empty t).exactPaths trustedCiExactPaths
    (fun _ => id) fun path hpath hdir => h ⟨path, hpath, hdir⟩
  obtain ⟨entries₂, hscan, hrecorded₂⟩ := hrecorded₁.recordListing
    isRecursiveTrustPath (t.files.filter fun f => ([] : GitPath).isPrefixOf f.path)
    fun f hf => List.mem_of_mem_filter hf
  obtain ⟨entries₃, hroots, hrecorded₃⟩ := hrecorded₂.roots trustedCiTreePaths
  refine ⟨entries₃, ?_, ?_⟩
  · rw [definitionEntries, hexact]
    simp only [bind, Except.bind, GitTree.lsTreeBelow, hscan]
    exact hroots
  · have hexact' : (fun path => False ∨ path ∈ trustedCiExactPaths) =
        (· ∈ trustedCiExactPaths) := funext fun path => false_or _
    rw [hexact'] at hrecorded₃
    refine hrecorded₃.congr fun f hf => ?_
    have hscanned : (∃ g ∈ t.files.filter fun g => ([] : GitPath).isPrefixOf g.path,
        isRecursiveTrustPath (pathText g.path) = true ∧ g.path = f.path) ↔
          isRecursiveTrustPath (pathText f.path) = true := by
      constructor
      · rintro ⟨g, -, hselect, heq⟩
        rwa [← heq]
      · intro hselect
        exact ⟨f, List.mem_filter.mpr ⟨hf, rfl⟩, hselect, rfl⟩
    rw [hscanned, LookedAt, false_or, or_assoc]

/-- With one nothing is compared. -/
theorem not_misplaced_of_ok {t : GitTree} {entries : Definition}
    (h : definitionEntries t = .ok entries) : ¬t.Misplaced := by
  rintro ⟨path, hpath, hdir⟩
  have hfold : ∀ (paths : List String) (before after : Definition), path ∈ paths →
      paths.foldlM (fun entries path => do
        let entry ← singleTreeEntry t path
        pure (entries.insert path (entry.getD "missing"))) before ≠ .ok after := by
    intro paths
    induction paths with
    | nil => exact fun _ _ hmem => absurd hmem List.not_mem_nil
    | cons other paths ih =>
      intro before after hmem heq
      rw [List.foldlM_cons] at heq
      cases hsingle : singleTreeEntry t other with
      | error e => simp [hsingle, bind, Except.bind] at heq
      | ok entry =>
        simp only [hsingle, bind, Except.bind, pure, Except.pure] at heq
        rcases List.mem_cons.mp hmem with rfl | hmem
        · obtain ⟨e, herror⟩ := singleTreeEntry_directory hdir
          rw [herror] at hsingle
          cases hsingle
        · exact ih _ _ hmem heq
  rw [definitionEntries] at h
  obtain ⟨after, hafter, -⟩ := Json.bind_ok h
  exact hfold _ _ _ hpath hafter

/-! ## 7. The comparison -/

/-- The two trees have the same mode and object at these paths. -/
def AgreeOn (S : GitPath → Prop) (t t' : GitTree) : Prop :=
  ∀ path, S path → t.at? path = t'.at? path

section Comparison

variable {t t' : GitTree} {entries entries' : Definition} {exact : String → Prop}
  {S : GitPath → Prop}

theorem at?_of_mem {f : GitBlob} (hf : f ∈ t.files) :
    t.at? f.path = some (f.mode, f.object) := by
  rw [GitTree.at?, find?_path hf]
  rfl

theorem exists_of_at? {path : GitPath} {mode object : String}
    (h : t.at? path = some (mode, object)) :
    ∃ f ∈ t.files, f.path = path ∧ f.mode = mode ∧ f.object = object := by
  obtain ⟨f, hfind, heq⟩ := Option.map_eq_some_iff.mp h
  exact ⟨f, List.mem_of_find?_eq_some hfind, by simpa using List.find?_some hfind,
    (Prod.mk.inj heq).1, (Prod.mk.inj heq).2⟩

/-- An entry is the mode and the object. -/
theorem value_inj {f g : GitBlob} (hf : f ∈ t.files) (hg : g ∈ t'.files)
    (h : f.value = g.value) : f.mode = g.mode ∧ f.object = g.object := by
  have hwords := words_metadata (t.word_mode hf) word_blob (word_of_isFullSha (t.objects f hf))
  have hwords' := words_metadata (t'.word_mode hg) word_blob (word_of_isFullSha (t'.objects g hg))
  rw [show f.mode ++ " " ++ "blob" ++ " " ++ f.object = g.mode ++ " " ++ "blob" ++ " " ++ g.object
    from h, hwords'] at hwords
  simp only [List.cons.injEq, String.toList_inj, and_true, true_and] at hwords
  exact ⟨hwords.1.symm, hwords.2.symm⟩

theorem value_ne_missing {f : GitBlob} (hf : f ∈ t.files) : f.value ≠ "missing" := by
  intro heq
  have hwords := words_metadata (t.word_mode hf) word_blob (word_of_isFullSha (t.objects f hf))
  rw [show f.mode ++ " " ++ "blob" ++ " " ++ f.object = "missing" from heq] at hwords
  have hone : words "missing".toList = ["missing".toList] := by decide +kernel
  rw [hone] at hwords
  simp at hwords

/-- Where the trees agree, so do the entries of one with those of the other. -/
theorem Recorded.get_of_agree (hexact : ∀ path, exact path → path ∈ trustedCiExactPaths)
    (hS : ∀ path, exact path → S (exactPath path)) (h : Recorded t exact S entries)
    (h' : Recorded t' exact S entries') (hagree : AgreeOn S t t') {path value : String}
    (hget : entries[path]? = some value) : entries'[path]? = some value := by
  rcases h.only path value hget with ⟨f, hf, hpath, rfl, rfl⟩ | ⟨hpath, hno, rfl⟩
  · have hat := hagree f.path hpath
    rw [at?_of_mem hf] at hat
    obtain ⟨g, hg, heq, hmode, hobject⟩ := exists_of_at? hat.symm
    have hkey : g.key = f.key := by rw [GitBlob.key, heq, GitBlob.key]
    have hvalue : g.value = f.value := by rw [GitBlob.value, hmode, hobject, GitBlob.value]
    rw [← hkey, ← hvalue]
    exact h'.blob g hg (heq ▸ hpath)
  · refine h'.missing path hpath fun g hg hkey => ?_
    have hgpath := path_of_key hg (hexact path hpath) hkey
    have hat := hagree _ (hS path hpath)
    rw [← hgpath, at?_of_mem hg] at hat
    obtain ⟨f, hf, heq, -⟩ := exists_of_at? hat
    exact hno f hf (by rw [GitBlob.key, heq, ← hkey, GitBlob.key])

/-- Where the entries are the same, the trees agree on what was recorded. -/
theorem Recorded.agree_of_get (h : Recorded t exact S entries) (h' : Recorded t' exact S entries)
    {path : GitPath} (hpath : S path) {mode object : String}
    (hat : t.at? path = some (mode, object)) : t'.at? path = some (mode, object) := by
  obtain ⟨f, hf, rfl, rfl, rfl⟩ := exists_of_at? hat
  rcases h'.only _ _ (h.blob f hf hpath) with ⟨g, hg, -, hkey, hvalue⟩ | ⟨-, -, hvalue⟩
  · obtain ⟨hmode, hobject⟩ := value_inj hf hg hvalue
    rw [eq_of_key hf hg hkey, at?_of_mem hg, hmode, hobject]
  · exact absurd hvalue (value_ne_missing hf)

theorem AgreeOn.symm (h : AgreeOn S t t') : AgreeOn S t' t := fun path hpath => (h path hpath).symm

theorem Recorded.eq_iff (hexact : ∀ path, exact path → path ∈ trustedCiExactPaths)
    (hS : ∀ path, exact path → S (exactPath path)) (h : Recorded t exact S entries)
    (h' : Recorded t' exact S entries') : entries = entries' ↔ AgreeOn S t t' := by
  constructor
  · rintro rfl path hpath
    cases hat : t.at? path with
    | some entry => rw [h.agree_of_get h' hpath hat]
    | none =>
      cases hat' : t'.at? path with
      | none => rfl
      | some entry => rw [← hat, h'.agree_of_get h hpath hat']
  · intro hagree
    refine Std.ExtTreeMap.ext_getElem? fun path => ?_
    cases hget : entries[path]? with
    | some value => rw [h.get_of_agree hexact hS h' hagree hget]
    | none =>
      cases hget' : entries'[path]? with
      | none => rfl
      | some value => rw [← hget, h'.get_of_agree hexact hS h hagree.symm hget']

theorem differingPaths_eq_nil : differingPaths entries entries' = [] ↔ entries = entries' := by
  constructor
  · intro h
    refine Std.ExtTreeMap.ext_getElem? fun path => ?_
    by_contra hne
    have hmem : path ∈ entries.keys ++ entries'.keys := by
      rw [List.mem_append, Std.ExtTreeMap.mem_keys, Std.ExtTreeMap.mem_keys]
      by_contra hno
      rw [not_or] at hno
      rw [Std.ExtTreeMap.getElem?_eq_none hno.1, Std.ExtTreeMap.getElem?_eq_none hno.2] at hne
      exact hne rfl
    have hdiffers : path ∈ differingPaths entries entries' := by
      rw [differingPaths, List.mem_filter, List.mem_insertionSort, List.mem_dedup]
      exact ⟨hmem, decide_eq_true hne⟩
    rw [h] at hdiffers
    cases hdiffers
  · rintro rfl
    rw [differingPaths, List.filter_eq_nil_iff]
    simp

end Comparison

/-- The comparison gives the word of trust. -/
def Trusted [Sha256] (trusted candidate : GitTree)
    (trustedSha candidateSha sourceRunPath : String) : Prop :=
  ∃ comparison, compareCiDefinition trusted candidate trustedSha candidateSha sourceRunPath =
    .ok comparison ∧ comparison.status = "trusted"

section Trusted

variable [Sha256] {trusted candidate : GitTree} {trustedSha candidateSha sourceRunPath : String}

/-- It does exactly when no directory stands in the place of a file and the trees agree on what
is looked at. -/
theorem trusted_iff (htrusted : isFullSha trustedSha = true)
    (hcandidate : isFullSha candidateSha = true) (hpath : sourceRunPath = trustedCiWorkflowPath) :
    Trusted trusted candidate trustedSha candidateSha sourceRunPath ↔
      (¬trusted.Misplaced ∧ ¬candidate.Misplaced) ∧ AgreeOn LookedAt trusted candidate := by
  have hstart : compareCiDefinition trusted candidate trustedSha candidateSha sourceRunPath = (do
      let trustedEntries ← definitionEntries trusted
      let candidateEntries ← definitionEntries candidate
      pure
        { sourceRunPath
          trustedDefinitionHash := definitionHash trustedEntries
          candidateDefinitionHash := definitionHash candidateEntries
          status := if (differingPaths trustedEntries candidateEntries).isEmpty &&
            definitionHash trustedEntries = definitionHash candidateEntries then "trusted"
            else "requires-re-review"
          differingPaths := differingPaths trustedEntries candidateEntries
          trustedCommitSha := trustedSha
          candidateCommitSha := candidateSha }) := by
    simp [compareCiDefinition, requireFullSha, htrusted, hcandidate, hpath, bind, Except.bind,
      pure, Except.pure]
  have hlooked : ∀ path ∈ trustedCiExactPaths, LookedAt (exactPath path) := fun path h =>
    .inl ⟨path, h, rfl⟩
  rw [Trusted, hstart]
  constructor
  · rintro ⟨comparison, hok, hstatus⟩
    obtain ⟨entries, hentries, hok⟩ := Json.bind_ok hok
    obtain ⟨entries', hentries', hok⟩ := Json.bind_ok hok
    have hmis := not_misplaced_of_ok hentries
    have hmis' := not_misplaced_of_ok hentries'
    refine ⟨⟨hmis, hmis'⟩, ?_⟩
    obtain ⟨_, heq, hrecorded⟩ := definitionEntries_ok hmis
    obtain ⟨_, heq', hrecorded'⟩ := definitionEntries_ok hmis'
    obtain rfl := Except.ok.inj (hentries.symm.trans heq)
    obtain rfl := Except.ok.inj (hentries'.symm.trans heq')
    rw [← Except.ok.inj hok] at hstatus
    refine (hrecorded.eq_iff (fun _ => id) hlooked hrecorded').mp ?_
    by_contra hne
    have hdiffers : (differingPaths entries entries').isEmpty = false := by
      rw [List.isEmpty_eq_false_iff]
      exact fun hnil => hne (differingPaths_eq_nil.mp hnil)
    simp [hdiffers] at hstatus
  · rintro ⟨⟨hmis, hmis'⟩, hagree⟩
    obtain ⟨entries, hentries, hrecorded⟩ := definitionEntries_ok hmis
    obtain ⟨entries', hentries', hrecorded'⟩ := definitionEntries_ok hmis'
    obtain rfl := (hrecorded.eq_iff (fun _ => id) hlooked hrecorded').mpr hagree
    rw [hentries, hentries']
    refine ⟨_, rfl, ?_⟩
    simp [differingPaths_eq_nil.mpr]

end Trusted

/-! ## 8. What the scan sees of a quoted path -/

/-- The rule of the full-tree scan, in words. -/
def Carries (dir : GitPath) (base : List Char) : Prop :=
  (∃ name ∈ trustedCiRecursiveFileNames, base = name.toList) ∨
    (∃ m ∈ trustedCiRecursiveModuleNames, m.toList ++ ['.'] <+: base) ∨
      ∃ m ∈ trustedCiRecursiveModuleNames, m.toList ∈ dir

theorem carriesTrust_iff (dir : GitPath) (base : List Char) :
    carriesTrust (dir ++ [base]) = true ↔ Carries dir base := by
  simp only [carriesTrust, Carries, List.getLastD_concat, List.dropLast_concat, Bool.or_eq_true,
    List.contains_iff_mem, List.mem_map, List.any_eq_true, List.isPrefixOf_iff_prefix, or_assoc]
  refine or_congr ?_ (or_congr Iff.rfl ?_)
  · exact exists_congr fun name => and_congr_right fun _ => eq_comm
  · constructor
    · rintro ⟨part, hpart, m, hm, rfl⟩
      exact ⟨m, hm, hpart⟩
    · rintro ⟨m, hm, hpart⟩
      exact ⟨_, hpart, m, hm, rfl⟩

theorem plain_names : ∀ name ∈ trustedCiRecursiveFileNames, name.toList.all plain = true := by
  decide +kernel

theorem plain_modules : ∀ m ∈ trustedCiRecursiveModuleNames,
    (m.toList ++ ['.']).all plain = true := by
  decide +kernel

theorem plain_module {m : String} (h : m ∈ trustedCiRecursiveModuleNames) :
    m.toList.all plain = true := by
  have hall := plain_modules m h
  rw [List.all_append, Bool.and_eq_true] at hall
  exact hall.1

/-- Of a quoted path the scan sees no file name, a module name with its dot only below a
directory, and no first directory. -/
theorem carriesTrust_wrap {dir : GitPath} {base : List Char}
    (hdir : ∀ name ∈ dir, ∀ c ∈ name, c.toNat < 256) :
    carriesTrust (wrap ((dir ++ [base]).map fun name => name.flatMap escape)) = true ↔
      (dir ≠ [] ∧ ∃ m ∈ trustedCiRecursiveModuleNames, m.toList ++ ['.'] <+: base) ∨
        ∃ m ∈ trustedCiRecursiveModuleNames, m.toList ∈ dir.tail := by
  rw [List.map_append, List.map_singleton, wrap, close_append]
  cases dir with
  | nil =>
    rw [List.map_nil, List.nil_append, List.modifyHead_cons, ← List.nil_append [_],
      carriesTrust_iff, Carries]
    constructor
    · rintro (⟨name, hname, heq⟩ | ⟨m, hm, hprefix⟩ | ⟨m, -, hmem⟩)
      · exact absurd (heq ▸ List.mem_cons_self) (quote_notMem_of_plain (plain_names name hname))
      · have hplain := plain_module hm
        cases hchars : m.toList with
        | nil => simp [hchars] at hprefix
        | cons c rest =>
          rw [hchars, List.cons_append, List.cons_prefix_cons] at hprefix
          rw [hchars, hprefix.1] at hplain
          exact absurd List.mem_cons_self (quote_notMem_of_plain hplain)
      · cases hmem
    · rintro (⟨hne, -⟩ | ⟨m, -, hmem⟩)
      · exact absurd rfl hne
      · cases hmem
  | cons first dir =>
    rw [List.map_cons, List.cons_append, List.modifyHead_cons, ← List.cons_append,
      carriesTrust_iff, Carries]
    have hfile : ¬∃ name ∈ trustedCiRecursiveFileNames,
        base.flatMap escape ++ ['"'] = name.toList := by
      rintro ⟨name, hname, heq⟩
      exact absurd (heq ▸ by simp) (quote_notMem_of_plain (plain_names name hname))
    have hmodule : (∃ m ∈ trustedCiRecursiveModuleNames,
        m.toList ++ ['.'] <+: base.flatMap escape ++ ['"']) ↔
          ∃ m ∈ trustedCiRecursiveModuleNames, m.toList ++ ['.'] <+: base :=
      exists_congr fun m => and_congr_right fun hm =>
        prefix_flatMap_escape (plain_modules m hm) (.inr rfl)
    have hbelow : (∃ m ∈ trustedCiRecursiveModuleNames,
        m.toList ∈ ('"' :: first.flatMap escape) :: dir.map fun name => name.flatMap escape) ↔
          ∃ m ∈ trustedCiRecursiveModuleNames, m.toList ∈ dir := by
      refine exists_congr fun m => and_congr_right fun hm => ?_
      rw [List.mem_cons, List.mem_map]
      constructor
      · rintro (heq | ⟨name, hname, heq⟩)
        · exact absurd (heq ▸ List.mem_cons_self) (quote_notMem_of_plain (plain_module hm))
        · rw [flatMap_escape_eq_word (plain_module hm) (hdir name (by simp [hname]))] at heq
          exact heq ▸ hname
      · intro hmem
        exact .inr ⟨_, hmem, flatMap_escape_of_plain (plain_module hm)⟩
    rw [hmodule, hbelow, List.tail_cons]
    simp [hfile]

/-! ## 9. Exactness -/

def UnderRoot (path : GitPath) : Prop := ∃ root ∈ trustedCiTreePaths, [root.toList] <+: path

/-- What the definition is declared to be: the exact paths, what is under the roots, and what
the rule names at any depth. -/
def Declared (path : GitPath) : Prop :=
  (∃ exact ∈ trustedCiExactPaths, exactPath exact = path) ∨ UnderRoot path ∨
    ∃ dir base, path = dir ++ [base] ∧ Carries dir base

/-- Declared, and not looked at. -/
def Overlooked (path : GitPath) : Prop := Declared path ∧ ¬LookedAt path

/-- The parts of the text of a path. -/
theorem pathParts_pathText {path : GitPath} (h : ProperPath path) :
    pathParts (pathText path) = quotedNames path := by
  rw [pathParts, pathText, split_quote h.1 h.2, List.filter_eq_self]
  intro name hname
  obtain ⟨hempty, hdot, -⟩ := quotedNames_proper h.2 name hname
  simp [hempty, hdot]

theorem exists_dir_base {path : GitPath} (h : path ≠ []) : ∃ dir base, path = dir ++ [base] :=
  ⟨path.dropLast, path.getLast h, (List.dropLast_append_getLast h).symm⟩

/-- The scan sees of a path what it is to see, or what is left of that in quotes. -/
theorem isRecursiveTrustPath_iff {dir : GitPath} {base : List Char}
    (h : ProperPath (dir ++ [base])) :
    isRecursiveTrustPath (pathText (dir ++ [base])) = true ↔
      if (joined '/' (dir ++ [base])).all plain then Carries dir base
      else (dir ≠ [] ∧ ∃ m ∈ trustedCiRecursiveModuleNames, m.toList ++ ['.'] <+: base) ∨
        ∃ m ∈ trustedCiRecursiveModuleNames, m.toList ∈ dir.tail := by
  rw [isRecursiveTrustPath, pathParts_pathText h, quotedNames]
  split
  · exact carriesTrust_iff dir base
  · exact carriesTrust_wrap fun name hname => (h.2 name (by simp [hname])).2.2.2

/-- Nothing else is looked at. -/
theorem declared_of_lookedAt {path : GitPath} (h : ProperPath path) (hlooked : LookedAt path) :
    Declared path := by
  rcases hlooked with hexact | hscan | hroot
  · exact .inl hexact
  · obtain ⟨dir, base, rfl⟩ := exists_dir_base h.1
    refine .inr (.inr ⟨dir, base, rfl, ?_⟩)
    rw [isRecursiveTrustPath_iff h] at hscan
    split at hscan
    · exact hscan
    · rcases hscan with ⟨-, hmodule⟩ | ⟨m, hm, hmem⟩
      · exact .inr (.inl hmodule)
      · exact .inr (.inr ⟨m, hm, List.mem_of_mem_tail hmem⟩)
  · exact .inr (.inl hroot)

theorem both_iff {E U C S : Prop} (hE : ¬E) :
    (E ∨ U ∨ C) ∧ ¬(E ∨ S ∨ U) ↔ ¬U ∧ C ∧ ¬S := by
  tauto

theorem not_both {E U C : Prop} : ¬((E ∨ U ∨ C) ∧ ¬(E ∨ C ∨ U)) := by
  tauto

/-- The overlooked paths: those in quotes, outside the roots, whose base name is one of the file
names, or which are a single name that begins with a module's, or whose first directory is the
only one named as a module. -/
theorem overlooked_iff {dir : GitPath} {base : List Char} (h : ProperPath (dir ++ [base])) :
    Overlooked (dir ++ [base]) ↔
      (joined '/' (dir ++ [base])).all plain = false ∧ ¬UnderRoot (dir ++ [base]) ∧
        Carries dir base ∧
        ¬((dir ≠ [] ∧ ∃ m ∈ trustedCiRecursiveModuleNames, m.toList ++ ['.'] <+: base) ∨
          ∃ m ∈ trustedCiRecursiveModuleNames, m.toList ∈ dir.tail) := by
  have hscan := isRecursiveTrustPath_iff h
  have hcarries : (∃ dir' base', dir ++ [base] = dir' ++ [base'] ∧ Carries dir' base') ↔
      Carries dir base := by
    constructor
    · rintro ⟨dir', base', heq, hc⟩
      obtain ⟨rfl, hbase⟩ := List.append_inj' heq rfl
      rwa [List.singleton_inj.mp hbase]
    · intro hc
      exact ⟨dir, base, rfl, hc⟩
  have hexact : (∃ exact ∈ trustedCiExactPaths, exactPath exact = dir ++ [base]) →
      (joined '/' (dir ++ [base])).all plain = true := by
    rintro ⟨exact, hmem, heq⟩
    rw [← heq, exactPath, joined_split]
    exact plain_exact exact hmem
  have hboth : Overlooked (dir ++ [base]) ↔
      ((∃ exact ∈ trustedCiExactPaths, exactPath exact = dir ++ [base]) ∨
        UnderRoot (dir ++ [base]) ∨ Carries dir base) ∧
      ¬((∃ exact ∈ trustedCiExactPaths, exactPath exact = dir ++ [base]) ∨
        isRecursiveTrustPath (pathText (dir ++ [base])) = true ∨ UnderRoot (dir ++ [base])) := by
    rw [Overlooked, Declared, hcarries]
    exact Iff.rfl
  rw [hboth, hscan]
  cases hp : (joined '/' (dir ++ [base])).all plain with
  | true =>
    rw [if_pos rfl]
    constructor
    · intro h
      exact absurd h not_both
    · intro h
      cases h.1
  | false =>
    have hno : ¬∃ exact ∈ trustedCiExactPaths, exactPath exact = dir ++ [base] := fun hex => by
      rw [hexact hex] at hp
      cases hp
    rw [if_neg Bool.false_ne_true, both_iff hno]
    constructor
    · intro h
      exact ⟨rfl, h⟩
    · intro h
      exact h.2

/-- At a path that Git does not allow there is nothing. -/
theorem at?_of_not_proper {t : GitTree} {path : GitPath} (h : ¬ProperPath path) :
    t.at? path = none := by
  rw [GitTree.at?, Option.map_eq_none_iff, List.find?_eq_none]
  intro f hf heq
  have hpath : f.path = path := by simpa using heq
  exact h (hpath ▸ t.properPath hf)

section Exactness

variable [Sha256] {trusted candidate : GitTree} {trustedSha candidateSha sourceRunPath : String}

/-- The comparison is exact if and only if, where the trees agree on the declared paths that are
looked at, they agree on the overlooked ones just when neither has a directory in the place of a
file. -/
theorem comparison_exact_iff (htrusted : isFullSha trustedSha = true)
    (hcandidate : isFullSha candidateSha = true) (hpath : sourceRunPath = trustedCiWorkflowPath) :
    (Trusted trusted candidate trustedSha candidateSha sourceRunPath ↔
      AgreeOn Declared trusted candidate) ↔
        (AgreeOn (fun path => Declared path ∧ LookedAt path) trusted candidate →
          (AgreeOn Overlooked trusted candidate ↔
            ¬trusted.Misplaced ∧ ¬candidate.Misplaced)) := by
  have hlooked : AgreeOn LookedAt trusted candidate ↔
      AgreeOn (fun path => Declared path ∧ LookedAt path) trusted candidate := by
    constructor
    · intro h path hboth
      exact h path hboth.2
    · intro h path hpath
      by_cases hproper : ProperPath path
      · exact h path ⟨declared_of_lookedAt hproper hpath, hpath⟩
      · rw [at?_of_not_proper hproper, at?_of_not_proper hproper]
  have hdeclared : AgreeOn Declared trusted candidate ↔
      AgreeOn (fun path => Declared path ∧ LookedAt path) trusted candidate ∧
        AgreeOn Overlooked trusted candidate := by
    constructor
    · intro h
      exact ⟨fun path hboth => h path hboth.1, fun path hover => h path hover.1⟩
    · rintro ⟨hboth, hover⟩ path hpath
      by_cases hlook : LookedAt path
      · exact hboth path ⟨hpath, hlook⟩
      · exact hover path ⟨hpath, hlook⟩
  rw [trusted_iff htrusted hcandidate hpath, hlooked, hdeclared]
  tauto

end Exactness

/-! ### A configuration file below a directory with an accent -/

namespace Sample

def sha (c : Char) : String := String.ofList (List.replicate 40 c)

theorem isFullSha_sha : isFullSha (sha 'a') = true := by decide +kernel

/-- `src/café/pyproject.toml`, the accent being two bytes. -/
def accented : GitPath :=
  ["src".toList, ['c', 'a', 'f', Char.ofNat 0xc3, Char.ofNat 0xa9], "pyproject.toml".toList]

/-- A tree of this one file. -/
def oneFile (object : String) (h : isFullSha object = true) : GitTree where
  files := [⟨accented, "100644", object⟩]
  directory _ := sha 'a'
  proper f hf := by
    have hproper : ∀ name ∈ accented, ProperName name := by decide +kernel
    rw [List.mem_singleton.mp hf]
    exact ⟨List.cons_ne_nil _ _, hproper⟩
  modes f hf := by
    have hdigits : ("100644".toList.all fun c => c.isDigit) = true := by decide +kernel
    rw [List.mem_singleton.mp hf]
    exact ⟨by simp, List.all_eq_true.mp hdigits⟩
  objects f hf := by
    rw [List.mem_singleton.mp hf]
    exact h
  directories _ := isFullSha_sha
  separate f hf g hg _ := by rw [List.mem_singleton.mp hf, List.mem_singleton.mp hg]

def old : GitTree := oneFile (sha 'a') isFullSha_sha

def new : GitTree := oneFile (sha 'b') (by decide +kernel)

theorem not_misplaced {object : String} (h : isFullSha object = true) :
    ¬(oneFile object h).Misplaced := by
  rintro ⟨path, hpath, f, hf, hprefix, -⟩
  rw [List.mem_singleton.mp hf] at hprefix
  have hall : ∀ path ∈ trustedCiExactPaths, (exactPath path).isPrefixOf accented = false := by
    decide +kernel
  rw [← List.isPrefixOf_iff_prefix, hall path hpath] at hprefix
  cases hprefix

theorem accented_not_lookedAt : ¬LookedAt accented := by
  have hexact : ∀ path ∈ trustedCiExactPaths, exactPath path ≠ accented := by decide +kernel
  have hroot : ∀ root ∈ trustedCiTreePaths, [root.toList].isPrefixOf accented = false := by
    decide +kernel
  rintro (⟨path, hpath, heq⟩ | hscan | ⟨root, hroot', hprefix⟩)
  · exact hexact path hpath heq
  · exact absurd hscan (by decide +kernel)
  · rw [← List.isPrefixOf_iff_prefix, hroot root hroot'] at hprefix
    cases hprefix

theorem at?_other {object : String} (h : isFullSha object = true) {path : GitPath}
    (hne : path ≠ accented) : (oneFile object h).at? path = none := by
  simp [GitTree.at?, oneFile, Ne.symm hne]

end Sample

/-- The changed file is declared, and the comparison trusts the change. -/
theorem accented_change_trusted :
    ¬(@Trusted zeroSha256 Sample.old Sample.new (Sample.sha 'a') (Sample.sha 'a')
      trustedCiWorkflowPath ↔ AgreeOn Declared Sample.old Sample.new) := by
  have htrusted : @Trusted zeroSha256 Sample.old Sample.new (Sample.sha 'a') (Sample.sha 'a')
      trustedCiWorkflowPath := by
    rw [@trusted_iff zeroSha256 _ _ _ _ _ Sample.isFullSha_sha Sample.isFullSha_sha rfl]
    refine ⟨⟨Sample.not_misplaced _, Sample.not_misplaced _⟩, fun path hpath => ?_⟩
    have hne : path ≠ Sample.accented := by
      rintro rfl
      exact Sample.accented_not_lookedAt hpath
    rw [Sample.old, Sample.new, Sample.at?_other _ hne, Sample.at?_other _ hne]
  intro hiff
  have hdeclared : Declared Sample.accented :=
    .inr (.inr ⟨Sample.accented.dropLast, _, rfl, .inl ⟨"pyproject.toml", by decide, rfl⟩⟩)
  have hat := hiff.mp htrusted _ hdeclared
  have hold : Sample.old.at? Sample.accented = some ("100644", Sample.sha 'a') := by decide +kernel
  have hnew : Sample.new.at? Sample.accented = some ("100644", Sample.sha 'b') := by decide +kernel
  rw [hold, hnew] at hat
  exact absurd hat (by decide +kernel)

/-- A tree compared with itself. -/
theorem comparison_exact_accented :
    @Trusted zeroSha256 Sample.old Sample.old (Sample.sha 'a') (Sample.sha 'a')
      trustedCiWorkflowPath ↔ AgreeOn Declared Sample.old Sample.old :=
  (@comparison_exact_iff zeroSha256 _ _ _ _ _ Sample.isFullSha_sha Sample.isFullSha_sha rfl).mpr
    fun _ => ⟨fun _ => ⟨Sample.not_misplaced _, Sample.not_misplaced _⟩, fun _ _ _ => rfl⟩

end ProductPdfQr.Ao
