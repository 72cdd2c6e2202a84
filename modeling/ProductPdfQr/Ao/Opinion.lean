/-
# The validation of an advisor's opinion

`validateAdvisorOpinion` reads the record of an opinion, the metadata file, the repository and
GitHub, one after the other, and what GitHub, the refs and the files say may change in between.
Commits do not change.

`valid_opinion_current` says what an opinion that it accepts is about: when the snapshot was
verified the pull request stood at the recorded evidence commit, whose one parent is the commit
that was reviewed and which differs from it in the pull request's evidence only.
-/
import ProductPdfQr.Ao.Verifier
import ProductPdfQr.Json.Codec

namespace ProductPdfQr.Ao

open Text Json Paths Quoting DeployRollback.AuditLog

/-! ## 1. The repository -/

structure GitCommit where
  parents : List String
  tree : GitTree

/-- The commits, by their SHA. -/
abbrev Commits := String → Option GitCommit

/-- The paths at which two trees differ. -/
def changedPaths (before after : GitTree) : List GitPath :=
  (((before.files ++ after.files).map GitBlob.path).dedup).filter fun path =>
    before.at? path ≠ after.at? path

/-- `git diff-tree --root --no-commit-id --name-only -r`, which prints nothing for a merge. -/
def diffTree (commits : Commits) (sha : String) : Except EvidenceError String :=
  match commits sha with
  | none => .error (.refused "command failed: git diff-tree")
  | some commit =>
    let print (paths : List GitPath) : String :=
      String.ofList (universalNewlines (paths.flatMap fun path => pathText path ++ ['\n']))
    match commit.parents with
    | [] => .ok (print (commit.tree.files.map GitBlob.path))
    | [parent] =>
      match commits parent with
      | none => .error (.refused "command failed: git diff-tree")
      | some before => .ok (print (changedPaths before.tree commit.tree))
    | _ => .ok ""

/-! ## 2. What the validation reads -/

/-- Why a file cannot be read: an `OSError`, a `JSONDecodeError`, or anything else. -/
inductive ReadError where
  | osError (text : String)
  | decodeError (text : String)
  | other (text : String)
  deriving DecidableEq, Repr

/-- The answers, in the order in which they are asked for where they may change. -/
structure Surroundings (Time : Type) where
  commits : Commits
  /-- The metadata file, each time it is read. -/
  firstMetadata : Except ReadError String
  secondMetadata : Except ReadError String
  thirdMetadata : Except ReadError String
  /-- The record, parsed. -/
  record : Except ReadError Json
  github : GitHubData
  /-- GitHub when the snapshot is verified. -/
  githubLater : GitHubData
  /-- `git rev-parse origin/<branch>` after the first fetch. -/
  fetchedHead : String → Except String String
  /-- `git show <commit>:<path>`. -/
  shown : (commit path : String) → Option String
  isAncestor : (commit head : String) → Bool
  /-- `git log --format=%H <commit>..<head>` outside the evidence. -/
  laterCodeCommits : (commit head : String) → Except String String
  /-- The checkout of the evidence commit: what is in it, and what its repository answers. -/
  realDirectory : Bool
  regular : String → Bool
  checkedOut : String → Except EvidenceError String
  remoteHead : String → Except EvidenceError String
  comparison : (targetBranch commit : String) → Except EvidenceError Comparison
  ciDefinition : (commit targetBranch : String) → Except EvidenceError CIDefinitionComparison
  /-- The file system around the workspaces. -/
  root : String
  registeredPaths : List String
  resolve : String → String
  pathExists : String → Bool
  projectName : String
  earlier : Time → Time → Bool

/-- The detached checkout of a commit. -/
def Surroundings.view {Time : Type} (s : Surroundings Time) (sha : String) : View where
  head := sha
  realDirectory := s.realDirectory
  diffTree := diffTree s.commits sha
  regular := s.regular
  readText := s.checkedOut
  parent := match (s.commits sha).bind fun commit => commit.parents.head? with
    | some parent => .ok parent
    | none => .error (.refused "command failed: git rev-parse")
  remoteHead := s.remoteHead
  comparison := s.comparison
  ciDefinition := s.ciDefinition

/-! ## 3. The parts of the validation -/

/-- How a part of the validation fails: with the reason that it returns, or an exception. -/
inductive Failed where
  | because (reason : String)
  | raised (text : String)
  deriving DecidableEq, Repr

abbrev Part := Except Failed

variable {Time : Type} [IsoTime Time]

/-- `if not c: return reason`. -/
def insist (c : Bool) (reason : String) : Part Unit := if c then .ok () else .error (.because reason)

/-- What raises here. -/
def orRaise {ε α : Type} (text : String) : Except ε α → Part α
  | .ok a => .ok a
  | .error _ => .error (.raised text)

/-- `_evidence_metadata_relative`. -/
def metadataPath (binding : EvidenceBinding) : String :=
  evidenceDirectory binding.prNumber ++ "/metadata.md"

/-- `except OSError`. -/
def readSupplied : Except ReadError String → Part String
  | .ok text => .ok text
  | .error (.osError text) => .error (.because ("Evidence metadata cannot be read: " ++ text))
  | .error _ => .error (.raised "the metadata file")

/-- `_validate_evidence_commit`. -/
def validateEvidenceCommit (s : Surroundings Time) (binding : EvidenceBinding)
    (evidenceSha currentHead : String) : Part Unit := do
  insist (isFullSha evidenceSha) "Evidence commit SHA must be a full lowercase SHA"
  match s.commits evidenceSha with
  | none => .error (.because "Bound Evidence commit does not exist")
  | some commit => do
    -- Of `rev-list --parents` two words, and the second is the bound commit.
    insist (commit.parents = [binding.codeCommitSha])
      "Evidence commit is not the direct child of its bound code commit"
    match s.shown evidenceSha (metadataPath binding) with
    | none => .error (.because ("Evidence commit lacks " ++ metadataPath binding))
    | some committed => do
      let supplied ← readSupplied s.secondMetadata
      insist (committed = supplied) "Evidence metadata does not match the bound Evidence commit"
      insist (s.isAncestor evidenceSha currentHead)
        "Bound Evidence commit is not an ancestor of the current PR head"

/-- `_validate_current_pr_code`. -/
def validateCurrentPrCode (s : Surroundings Time) (binding : EvidenceBinding)
    (currentHead : String) : Part Unit := do
  insist (s.isAncestor binding.codeCommitSha currentHead)
    "Evidence code commit is no longer an ancestor of the PR head"
  let later ← orRaise "git log" (s.laterCodeCommits binding.codeCommitSha currentHead)
  insist (strip later = "") "PR has code changes after the reviewed commit; re-review is required"

/-- What the body of the `try` compares. -/
def checkSnapshot (s : Surroundings Time) (binding : EvidenceBinding) (evidenceSha : String) :
    Part Unit := do
  let verified ← orRaise "verify_evidence_head" (verifyEvidenceHead Time (s.view evidenceSha)
    s.githubLater binding.prNumber evidenceSha true none)
  let committed ← orRaise "the committed metadata" (s.checkedOut "metadata.md")
  let supplied ← orRaise "the metadata file" s.thirdMetadata
  insist (committed = supplied) "Evidence metadata does not match the fully verified Snapshot"
  insist (verified.codeCommitSha = binding.codeCommitSha)
    "Verified Evidence Snapshot does not bind the opinion code commit"

/-- `_validate_trusted_evidence_snapshot`: an exception is a reason too. -/
def validateTrustedEvidenceSnapshot (s : Surroundings Time) (binding : EvidenceBinding)
    (evidenceSha : String) : Part Unit :=
  (checkSnapshot s binding evidenceSha).mapError fun
    | .because reason => .because reason
    | .raised text => .because ("Trusted Evidence Snapshot verification failed: " ++ text)

def lifecycleFields : List String :=
  ["path", "commit_sha", "pr_number", "created_at", "destroyed_at", "destroy_reason", "detached"]

/-- `path.name`. -/
def pathName (path : String) : String := String.ofList ((split '/' path.toList).getLastD [])

/-- `_workspace_prefix`. -/
def workspacePrefix (s : Surroundings Time) (binding : EvidenceBinding) : String :=
  s.projectName ++ "-advisor-pr-" ++ toString binding.prNumber ++ "-" ++
    String.ofList (binding.codeCommitSha.toList.take 12) ++ "-"

/-- `_parse_lifecycle_timestamp`. -/
def parseLifecycleTimestamp (value : Json) : Option Time :=
  (value.str?.bind fromisoformat).filter aware

/-- The times of a lifecycle. -/
def validateLifecycleTimes (s : Surroundings Time) (lifecycle : Json) : Part Unit :=
  match (parseLifecycleTimestamp (lifecycle.get "created_at") : Option Time),
      (parseLifecycleTimestamp (lifecycle.get "destroyed_at") : Option Time) with
  | some createdAt, some destroyedAt =>
    insist (!s.earlier destroyedAt createdAt) "Workspace lifecycle destruction precedes creation"
  | _, _ =>
    .error (.because "Workspace lifecycle timestamps must be timezone-qualified ISO-8601 values")

/-- `lifecycle.get("destroy_reason") not in {…}`, which raises for a list or a dict. -/
def validateDestroyReason (lifecycle : Json) : Part Unit :=
  match lifecycle.get "destroy_reason" with
  | .arr _ => .error (.raised "unhashable type")
  | .obj _ => .error (.raised "unhashable type")
  | reason =>
    insist (["normal", "timeout", "exception"].any fun known => reason.pyEq (.str known))
      "Workspace lifecycle destroy_reason must be normal, timeout, or exception"

/-- What is left of `_validate_workspace_lifecycle` once the path is known to be absolute. -/
def validateWorkspace (s : Surroundings Time) (binding : EvidenceBinding) (raw lifecycle : Json)
    (workspacePath : String) : Part Unit := do
  let resolved := s.resolve workspacePath
  insist (resolved ≠ s.root && !s.registeredPaths.contains resolved)
    "Default or active repository workspace cannot be accepted as an Advisor workspace"
  insist (!s.pathExists resolved) "Advisor workspace still exists after its recorded destruction"
  insist (startsWith (pathName resolved) (workspacePrefix s binding))
    "Workspace path does not match the Resolver naming contract"
  insist ((lifecycle.get "commit_sha").pyEq (.str binding.codeCommitSha) &&
      (lifecycle.get "pr_number").pyEq (.int binding.prNumber) &&
      lifecycle.get "detached" = .bool true &&
      (raw.get "workspace_path").pyEq (.str workspacePath))
    "Workspace lifecycle does not match the Evidence commit, PR, or detached workspace"
  validateLifecycleTimes s lifecycle
  validateDestroyReason lifecycle

/-- `_validate_workspace_lifecycle`. -/
def validateWorkspaceLifecycle (s : Surroundings Time) (binding : EvidenceBinding) (raw : Json) :
    Part Unit := do
  let lifecycle := raw.get "workspace_lifecycle"
  insist lifecycle.isDict "Advisor opinion lacks the workspace lifecycle record"
  insist (lifecycleFields.all fun field => (lifecycle.get? field).isSome)
    "Workspace lifecycle record lacks required fields"
  match (lifecycle.get "path").str? with
  | none => .error (.because "Workspace lifecycle path must be absolute")
  | some workspacePath => do
    insist (isAbsolute workspacePath) "Workspace lifecycle path must be absolute"
    validateWorkspace s binding raw lifecycle workspacePath

/-! ## 4. The validation -/

structure OpinionValidation where
  valid : Bool
  gateStatus : String
  reviewedCommitSha : Option String
  evidenceCodeCommitSha : Option String
  evidenceCommitSha : Option String
  currentPrHeadSha : Option String
  failedChecks : List String
  reason : String
  deriving DecidableEq, Repr

/-- What is known of the commits when the validation ends. -/
structure Known where
  reviewed : Option String := none
  codeCommitSha : Option String := none
  evidenceSha : Option String := none
  currentHead : Option String := none

/-- `_opinion_validation_result`. -/
def opinionResult (known : Known) (valid : Bool) (failedChecks : List String) (reason : String) :
    OpinionValidation where
  valid := valid
  gateStatus := if valid then "valid" else "indeterminate"
  reviewedCommitSha := known.reviewed
  evidenceCodeCommitSha := known.codeCommitSha
  evidenceCommitSha := known.evidenceSha
  currentPrHeadSha := known.currentHead
  failedChecks := failedChecks
  reason := reason

/-- A check that has not passed. -/
def refusedOpinion (known : Known) (failedCheck reason : String) : OpinionValidation :=
  opinionResult known false [failedCheck] reason

/-- The last `except`. -/
def raisedOpinion (known : Known) (text : String) : OpinionValidation :=
  refusedOpinion known "validation_error"
    ("Advisor opinion validation could not complete: " ++ text)

/-- A part of the validation, and what comes after it. -/
def afterPart (known : Known) (failedCheck : String) (part : Part Unit)
    (next : OpinionValidation) : OpinionValidation :=
  match part with
  | .ok () => next
  | .error (.because reason) => refusedOpinion known failedCheck reason
  | .error (.raised text) => raisedOpinion known text

/-- The run that the record reports was completed and cleaned up after. -/
def runCompleted (raw : Json) : Bool :=
  (raw.get "status").pyEq (.str "completed") && (raw.get "exit_code").pyEq (.int 0) &&
    raw.get "cleanup_succeeded" = .bool true

/-- The checks of commits and record, once the head of the pull request is known. -/
def validateHead (s : Surroundings Time) (binding : EvidenceBinding) (raw : Json)
    (reviewed evidenceSha currentHead : String) : OpinionValidation :=
  let known : Known := ⟨some reviewed, some binding.codeCommitSha, some evidenceSha,
    some currentHead⟩
  afterPart known "evidence" (validateEvidenceCommit s binding evidenceSha currentHead)
    (afterPart known "current_pr_head" (validateCurrentPrCode s binding currentHead)
      (afterPart known "evidence" (validateTrustedEvidenceSnapshot s binding evidenceSha)
        (afterPart known "workspace_lifecycle" (validateWorkspaceLifecycle s binding raw)
          (if reviewed ≠ binding.codeCommitSha then
            refusedOpinion known "commit_binding"
              "Advisor opinion commit does not match Evidence code commit"
          else if !runCompleted raw then
            refusedOpinion known "advisor_completion"
              "Advisor command or workspace cleanup did not complete successfully"
          else
            opinionResult known true []
              "Advisor opinion is bound to Evidence, current code, and a complete lifecycle"))))

/-- The checks of the pull request, once the record is known to be bound to the metadata. -/
def validatePullRequest (s : Surroundings Time) (binding : EvidenceBinding) (raw : Json)
    (reviewed evidenceSha : String) : OpinionValidation :=
  let known : Known := ⟨some reviewed, some binding.codeCommitSha, some evidenceSha, none⟩
  match s.github.pullRequest binding.prNumber with
  | .error _ => raisedOpinion known "pull_request"
  | .ok pr =>
    let known := { known with currentHead := some pr.headSha }
    if pr.number ≠ binding.prNumber || pr.sourceBranch ≠ binding.sourceBranch ||
        pr.targetBranch ≠ binding.targetBranch then
      refusedOpinion known "evidence_binding"
        "Current PR identity or branches do not match Evidence metadata"
    else match s.fetchedHead pr.sourceBranch with
    | .error text => raisedOpinion known text
    | .ok fetchedHead =>
      if strip fetchedHead ≠ pr.headSha then
        refusedOpinion known "current_pr_head" "PR head moved while validating the Advisor opinion"
      else validateHead s binding raw reviewed evidenceSha pr.headSha

/-- The `evidence` of a record is that of the metadata. -/
def evidenceMatches (binding : EvidenceBinding) (evidence : Json) : Bool :=
  (evidence.get "pr_number").pyEq (.int binding.prNumber) &&
    (evidence.get "code_commit_sha").pyEq (.str binding.codeCommitSha) &&
    (evidence.get "metadata_path").pyEq (.str (metadataPath binding))

/-- The checks of the record. -/
def validateRecord (s : Surroundings Time) (binding : EvidenceBinding) (raw : Json) :
    OpinionValidation :=
  let known : Known := { codeCommitSha := some binding.codeCommitSha }
  if !raw.isDict then
    refusedOpinion known "advisor_opinion" "Advisor opinion record must be a JSON object"
  else
    let evidence := raw.get "evidence"
    match (raw.get "reviewed_commit_sha").str? with
    | none =>
      refusedOpinion known "opinion_binding" ("Advisor opinion lacks required binding: " ++
        if evidence.isDict then "reviewed_commit_sha" else "reviewed_commit_sha, evidence")
    | some reviewed =>
      let known := { known with reviewed := some reviewed }
      if !evidence.isDict then
        refusedOpinion known "opinion_binding" "Advisor opinion lacks required binding: evidence"
      else match (evidence.get "commit_sha").str? with
      | none =>
        refusedOpinion known "evidence_binding"
          "Advisor opinion Evidence binding is incomplete or does not match metadata"
      | some evidenceSha =>
        if !(evidenceMatches binding evidence && isFullSha evidenceSha) then
          refusedOpinion { known with evidenceSha := some evidenceSha } "evidence_binding"
            "Advisor opinion Evidence binding is incomplete or does not match metadata"
        else validatePullRequest s binding raw reviewed evidenceSha

/-- `validate_advisor_opinion`. -/
def validateAdvisorOpinion (s : Surroundings Time) : OpinionValidation :=
  match s.firstMetadata with
  | .error _ => refusedOpinion {} "evidence" "Evidence metadata is unavailable or invalid"
  | .ok metadata =>
    match parseEvidenceBinding metadata with
    | .error _ => refusedOpinion {} "evidence" "Evidence metadata is unavailable or invalid"
    | .ok binding =>
      let known : Known := { codeCommitSha := some binding.codeCommitSha }
      match s.record with
      | .error (.other text) => raisedOpinion known text
      | .error _ =>
        refusedOpinion known "advisor_opinion" "Advisor opinion record is unavailable or invalid"
      | .ok raw => validateRecord s binding raw

/-! ## 5. The evidence commit changes the evidence only -/

/-- A path of the evidence of a pull request. -/
def InEvidence (prNumber : Int) (path : GitPath) : Prop :=
  split '/' (evidenceDirectory prNumber).toList <+: path

theorem plain_digit {c : Char} (h : c.isDigit = true) : plain c = true := by
  have hbounds : 48 ≤ c.toNat ∧ c.toNat ≤ 57 := by
    simpa [Char.isDigit, UInt32.le_iff_toNat_le] using h
  have hquote : c ≠ '"' := by
    rintro rfl
    exact absurd hbounds (by decide)
  have hslash : c ≠ '\\' := by
    rintro rfl
    exact absurd hbounds (by decide)
  have hlow : 0x20 ≤ c.toNat := by omega
  have hhigh : c.toNat < 0x7f := by omega
  simp [plain, hquote, hslash, hlow, hhigh]

theorem plain_nat (n : Nat) : (toString n).toList.all plain = true := by
  rw [List.all_eq_true]
  intro c hc
  refine plain_digit (Nat.isDigit_of_mem_toDigits (by decide) (by decide) (b := 10) (n := n) ?_)
  simpa using hc

theorem plain_int (n : Int) : (toString n).toList.all plain = true := by
  cases n with
  | ofNat n => exact plain_nat n
  | negSucc n =>
    have h : (toString (Int.negSucc n)) = "-" ++ toString (n + 1) := rfl
    rw [h, String.toList_append, List.all_append, plain_nat (n + 1)]
    rfl

theorem plain_evidenceDirectory (prNumber : Int) :
    (evidenceDirectory prNumber).toList.all plain = true := by
  rw [evidenceDirectory, String.toList_append, List.all_append, plain_int prNumber]
  decide +kernel

theorem plain_evidenceFiles : ∀ name ∈ evidenceFiles, name.toList.all plain = true := by
  decide +kernel

/-- A path whose text is plain is the text, name by name. -/
theorem eq_split_of_pathText {path : GitPath} {word : List Char} (h : ProperPath path)
    (hplain : word.all plain = true) (htext : pathText path = word) : path = split '/' word := by
  have hjoined : joined '/' path = word := by
    by_cases hall : (joined '/' path).all plain = true
    · rwa [pathText, quote_of_plain hall] at htext
    · rw [pathText, quote_of_not (by simpa using hall)] at htext
      have hquote : '"' ∈ word := htext ▸ List.mem_cons_self
      exact absurd hquote (quote_notMem_of_plain hplain)
  rw [← hjoined, split_joined h.1 fun name hname => (h.2 name hname).2.2.1]

/-- The lines that Git prints are the paths. -/
theorem lines_of_paths {paths : List GitPath} (h : ∀ path ∈ paths, ProperPath path) :
    lines (String.ofList (universalNewlines (paths.flatMap fun path => pathText path ++ ['\n']))) =
      paths.map fun path => String.ofList (pathText path) := by
  have hchars : ∀ path ∈ paths, ∀ c ∈ pathText path,
      isLineEnd c = false ∧ c ≠ '\r' ∧ c ≠ '\n' := fun path hpath c hc =>
    lineEnd_of_tab_or_printable (.inr (pathText_printable (h path hpath) c hc))
  rw [lines, String.toList_ofList, universalNewlines_eq]
  · have hsplit : splitLines (paths.flatMap fun path => pathText path ++ ['\n']) =
        paths.map pathText := by
      clear h
      induction paths with
      | nil => rfl
      | cons path paths ih =>
        rw [List.flatMap_cons, List.append_assoc, List.singleton_append,
          splitLines_line (fun c hc => (hchars path (by simp) c hc).1) (by decide),
          ih fun other hother => hchars other (by simp [hother]), List.map_cons]
    rw [hsplit, List.map_map]
    rfl
  · intro hmem
    obtain ⟨path, hpath, hmem⟩ := List.mem_flatMap.mp hmem
    rcases List.mem_append.mp hmem with hmem | hmem
    · exact (hchars path hpath _ hmem).2.1 rfl
    · exact absurd hmem (by decide)

theorem properPath_of_at? {tree : GitTree} {path : GitPath} (h : tree.at? path ≠ none) :
    ProperPath path := by
  by_contra hnot
  exact h (at?_of_not_proper hnot)

/-- Where two trees differ is among the changed paths, and those are proper. -/
theorem mem_changedPaths {before after : GitTree} {path : GitPath} :
    path ∈ changedPaths before after ↔ before.at? path ≠ after.at? path := by
  rw [changedPaths, List.mem_filter, List.mem_dedup, decide_eq_true_eq, and_iff_right_iff_imp]
  intro hne
  rw [List.map_append, List.mem_append]
  have hmem : ∀ {tree : GitTree}, tree.at? path ≠ none → path ∈ tree.files.map GitBlob.path := by
    intro tree hsome
    obtain ⟨⟨mode, object⟩, hat⟩ := Option.ne_none_iff_exists'.mp hsome
    obtain ⟨f, hf, rfl, -⟩ := exists_of_at? hat
    exact List.mem_map_of_mem hf
  by_cases hbefore : before.at? path = none
  · exact .inr (hmem fun hafter => hne (hbefore.trans hafter.symm))
  · exact .inl (hmem hbefore)

theorem properPath_of_mem_changedPaths {before after : GitTree} {path : GitPath}
    (h : path ∈ changedPaths before after) : ProperPath path := by
  rw [mem_changedPaths] at h
  by_cases hbefore : before.at? path = none
  · exact properPath_of_at? fun hafter => h (hbefore.trans hafter.symm)
  · exact properPath_of_at? hbefore

theorem check_ok {c : Bool} {what : String} (h : check c what = .ok ()) : c = true := by
  by_contra hnot
  rw [check, if_neg hnot] at h
  cases h

omit [IsoTime Time] in
/-- A commit with one parent whose listing shows the five files only changes the evidence. -/
theorem agree_of_checkFiles {s : Surroundings Time} {prNumber : Int} {evidenceSha parent : String}
    {commit : GitCommit} (hcommit : s.commits evidenceSha = some commit)
    (hparents : commit.parents = [parent])
    (h : checkFiles (s.view evidenceSha) prNumber evidenceSha = .ok ()) :
    ∃ before, s.commits parent = some before ∧
      ∀ path, ¬InEvidence prNumber path → before.tree.at? path = commit.tree.at? path := by
  obtain ⟨-, -, h⟩ := bind_ok h
  obtain ⟨-, -, h⟩ := bind_ok h
  obtain ⟨-, -, h⟩ := bind_ok h
  obtain ⟨text, htext, h⟩ := bind_ok h
  obtain ⟨_, hpaths, -⟩ := bind_ok h
  change diffTree s.commits evidenceSha = .ok text at htext
  rw [diffTree, hcommit] at htext
  dsimp only at htext
  rw [hparents] at htext
  dsimp only at htext
  cases hbefore : s.commits parent with
  | none =>
    rw [hbefore] at htext
    cases htext
  | some before =>
    rw [hbefore] at htext
    obtain rfl := Except.ok.inj htext
    refine ⟨before, rfl, fun path houtside => ?_⟩
    by_contra hne
    have hmem := mem_changedPaths.mpr hne
    have hproper := properPath_of_mem_changedPaths hmem
    obtain ⟨hexpected, -⟩ := Bool.and_eq_true_iff.mp (check_ok hpaths)
    have hline : String.ofList (pathText path) ∈ evidencePaths prNumber := by
      refine List.contains_iff_mem.mp (List.all_eq_true.mp hexpected _ ?_)
      rw [lines_of_paths fun other => properPath_of_mem_changedPaths, List.mem_filter]
      refine ⟨List.mem_map_of_mem hmem, decide_eq_true fun hempty => ?_⟩
      exact hproper.text_ne_nil (String.ofList_injective hempty)
    obtain ⟨name, hname, heq⟩ := List.mem_map.mp hline
    have hword : pathText path =
        (evidenceDirectory prNumber).toList ++ '/' :: name.toList := by
      have := congrArg String.toList heq.symm
      simpa using this
    have hplain : ((evidenceDirectory prNumber).toList ++ '/' :: name.toList).all plain = true := by
      rw [List.all_append, plain_evidenceDirectory, List.all_cons, plain_evidenceFiles name hname]
      decide
    apply houtside
    rw [InEvidence, eq_split_of_pathText hproper hplain hword, split_append_sep]
    exact List.prefix_append _ _

/-! ## 6. What a valid opinion is about -/

/-- What the verification of a snapshot makes sure of. -/
theorem verifyEvidenceHead_ok {view : View} {github : GitHubData} {prNumber : Int}
    {evidenceSha : String} {verified : VerifiedEvidenceHead}
    (h : verifyEvidenceHead Time view github prNumber evidenceSha true none = .ok verified) :
    checkFiles view prNumber evidenceSha = .ok () ∧
      ∃ metadata binding pr ci, view.readText "metadata.md" = .ok metadata ∧
        parseEvidenceBinding metadata = .ok binding ∧ binding.prNumber = prNumber ∧
        verified.codeCommitSha = binding.codeCommitSha ∧
        github.pullRequest prNumber = .ok pr ∧ pr.headSha = evidenceSha ∧
        github.successfulCiRun binding.codeCommitSha (some binding.ciRunId) = .ok ci ∧
        checkRun ci binding = .ok () := by
  obtain ⟨_, hfiles, h⟩ := bind_ok h
  obtain ⟨⟨metadata, binding, createdAt⟩, hbinding, h⟩ := bind_ok h
  obtain ⟨pr, hpr, h⟩ := bind_ok h
  obtain ⟨_, hpullRequest, h⟩ := bind_ok h
  obtain ⟨ci, hci, h⟩ := bind_ok h
  obtain ⟨_, hrun, h⟩ := bind_ok h
  obtain ⟨comparison, -, h⟩ := bind_ok h
  obtain ⟨facts, -, h⟩ := bind_ok h
  obtain ⟨ciDefinition, -, h⟩ := bind_ok h
  obtain ⟨-, -, h⟩ := bind_ok h
  obtain ⟨-, -, h⟩ := bind_ok h
  obtain ⟨-, -, h⟩ := bind_ok h
  obtain ⟨-, -, h⟩ := bind_ok h
  rw [if_pos rfl] at h
  obtain ⟨_, -, h⟩ := bind_ok h
  obtain rfl := Except.ok.inj h
  refine ⟨hfiles, metadata, binding, pr, ci, ?_⟩
  obtain ⟨text, htext, hbinding⟩ := bind_ok hbinding
  obtain ⟨parsed, hparsed, hbinding⟩ := bind_ok hbinding
  obtain ⟨time, -, hbinding⟩ := bind_ok hbinding
  obtain ⟨_, hnumber, hbinding⟩ := bind_ok hbinding
  obtain ⟨parent, -, hbinding⟩ := bind_ok hbinding
  obtain ⟨-, -, hbinding⟩ := bind_ok hbinding
  obtain ⟨rfl, rfl, rfl⟩ : text = metadata ∧ parsed = binding ∧ time = createdAt := by
    cases hbinding
    exact ⟨rfl, rfl, rfl⟩
  obtain ⟨-, -, hpullRequest⟩ := bind_ok hpullRequest
  obtain ⟨_, hhead, -⟩ := bind_ok hpullRequest
  exact ⟨htext, hparsed, of_decide_eq_true (check_ok hnumber), rfl, hpr,
    of_decide_eq_true (check_ok hhead), hci, hrun⟩

section Opinion

variable {s : Surroundings Time}

theorem insist_ok {c : Bool} {reason : String} (h : insist c reason = .ok ()) : c = true := by
  by_contra hnot
  rw [insist, if_neg hnot] at h
  cases h

omit [IsoTime Time] in
theorem orRaise_ok {ε α : Type} {text : String} {x : Except ε α} {a : α}
    (h : orRaise text x = .ok a) : x = .ok a := by
  cases x with
  | ok b =>
    cases h
    rfl
  | error e => cases h

/-- What follows a part is only valid where the part is passed. -/
theorem afterPart_valid {known : Known} {failedCheck : String} {part : Part Unit}
    {next : OpinionValidation} (h : (afterPart known failedCheck part next).valid = true) :
    part = .ok () ∧ next.valid = true := by
  cases part with
  | ok a => exact ⟨rfl, h⟩
  | error failed =>
    cases failed with
    | because reason => cases h
    | raised text => cases h

/-- What the record of a valid opinion says of its run and its workspace. -/
structure Reported (s : Surroundings Time) (raw : Json) (codeCommitSha : String) : Prop where
  reviewed : raw.get "reviewed_commit_sha" = .str codeCommitSha
  status : (raw.get "status").pyEq (.str "completed") = true
  exitCode : (raw.get "exit_code").pyEq (.int 0) = true
  cleanedUp : raw.get "cleanup_succeeded" = .bool true
  detached : (raw.get "workspace_lifecycle").get "detached" = .bool true
  workspaceCommit :
    ((raw.get "workspace_lifecycle").get "commit_sha").pyEq (.str codeCommitSha) = true
  gone : ∃ path, (raw.get "workspace_lifecycle").get "path" = .str path ∧
    s.pathExists (s.resolve path) = false

/-- What a valid opinion says is so: the record, the metadata file and the commits agree. -/
structure Current (s : Surroundings Time) (raw : Json) (binding : EvidenceBinding)
    (evidenceSha : String) : Prop where
  /-- The pull request stands at the evidence commit. -/
  head : ∃ pr, s.githubLater.pullRequest binding.prNumber = .ok pr ∧ pr.headSha = evidenceSha
  /-- Its one parent is the reviewed commit, and outside the evidence they agree. -/
  child : ∃ commit before, s.commits evidenceSha = some commit ∧
    commit.parents = [binding.codeCommitSha] ∧ s.commits binding.codeCommitSha = some before ∧
    ∀ path, ¬InEvidence binding.prNumber path → before.tree.at? path = commit.tree.at? path
  /-- The CI run of the metadata completed successfully on the reviewed commit. -/
  run : ∃ ci, s.githubLater.successfulCiRun binding.codeCommitSha (some binding.ciRunId) = .ok ci ∧
    ci.runId = binding.ciRunId ∧ ci.commitSha = binding.codeCommitSha ∧
    ci.status = "completed" ∧ ci.conclusion = "success"
  reported : Reported s raw binding.codeCommitSha

theorem str?_eq_some {j : Json} {text : String} (h : j.str? = some text) : j = .str text := by
  cases j with
  | str found => exact congrArg Json.str (Option.some.inj h)
  | _ => cases h

theorem validateWorkspaceLifecycle_ok {binding : EvidenceBinding} {raw : Json}
    (h : validateWorkspaceLifecycle s binding raw = .ok ()) :
    (raw.get "workspace_lifecycle").get "detached" = .bool true ∧
      ((raw.get "workspace_lifecycle").get "commit_sha").pyEq (.str binding.codeCommitSha) = true ∧
      ∃ path, (raw.get "workspace_lifecycle").get "path" = .str path ∧
        s.pathExists (s.resolve path) = false := by
  obtain ⟨-, -, h⟩ := bind_ok h
  obtain ⟨-, -, h⟩ := bind_ok h
  cases hpath : ((raw.get "workspace_lifecycle").get "path").str? with
  | none =>
    rw [hpath] at h
    cases h
  | some path =>
    rw [hpath] at h
    obtain ⟨-, -, h⟩ := bind_ok h
    obtain ⟨-, -, h⟩ := bind_ok h
    obtain ⟨_, hgone, h⟩ := bind_ok h
    obtain ⟨-, -, h⟩ := bind_ok h
    obtain ⟨_, hmatch, -⟩ := bind_ok h
    have hmatch := insist_ok hmatch
    simp only [Bool.and_eq_true, decide_eq_true_eq] at hmatch
    exact ⟨hmatch.1.2, hmatch.1.1.1, path, str?_eq_some hpath, by simpa using insist_ok hgone⟩

theorem snapshot_ok {binding : EvidenceBinding} {evidenceSha : String}
    (h : validateTrustedEvidenceSnapshot s binding evidenceSha = .ok ()) :
    ∃ verified committed, verifyEvidenceHead Time (s.view evidenceSha) s.githubLater
        binding.prNumber evidenceSha true none = .ok verified ∧
      s.checkedOut "metadata.md" = .ok committed ∧ s.thirdMetadata = .ok committed ∧
      verified.codeCommitSha = binding.codeCommitSha := by
  have hbody : checkSnapshot s binding evidenceSha = .ok () := by
    unfold validateTrustedEvidenceSnapshot at h
    cases hcheck : checkSnapshot s binding evidenceSha with
    | ok a => rfl
    | error failed =>
      rw [hcheck] at h
      cases h
  obtain ⟨verified, hverified, hbody⟩ := bind_ok hbody
  obtain ⟨committed, hcommitted, hbody⟩ := bind_ok hbody
  obtain ⟨supplied, hsupplied, hbody⟩ := bind_ok hbody
  obtain ⟨_, hsame, hbody⟩ := bind_ok hbody
  have hequal : committed = supplied := of_decide_eq_true (insist_ok hsame)
  exact ⟨verified, committed, orRaise_ok hverified, orRaise_ok hcommitted,
    hequal ▸ orRaise_ok hsupplied, of_decide_eq_true (insist_ok hbody)⟩

omit [IsoTime Time] in
theorem evidenceCommit_ok {binding : EvidenceBinding} {evidenceSha currentHead : String}
    (h : validateEvidenceCommit s binding evidenceSha currentHead = .ok ()) :
    ∃ commit, s.commits evidenceSha = some commit ∧ commit.parents = [binding.codeCommitSha] := by
  obtain ⟨-, -, h⟩ := bind_ok h
  cases hcommit : s.commits evidenceSha with
  | none =>
    rw [hcommit] at h
    cases h
  | some commit =>
    rw [hcommit] at h
    obtain ⟨_, hparents, -⟩ := bind_ok h
    exact ⟨commit, rfl, of_decide_eq_true (insist_ok hparents)⟩

/-- The checks of commits and record, once they have all passed. -/
theorem validateHead_valid {binding : EvidenceBinding} {raw : Json}
    {reviewed evidenceSha currentHead : String}
    (h : (validateHead s binding raw reviewed evidenceSha currentHead).valid = true) :
    validateEvidenceCommit s binding evidenceSha currentHead = .ok () ∧
      validateTrustedEvidenceSnapshot s binding evidenceSha = .ok () ∧
      validateWorkspaceLifecycle s binding raw = .ok () ∧ reviewed = binding.codeCommitSha ∧
      runCompleted raw = true := by
  obtain ⟨hcommit, h⟩ := afterPart_valid h
  obtain ⟨-, h⟩ := afterPart_valid h
  obtain ⟨hsnapshot, h⟩ := afterPart_valid h
  obtain ⟨hlifecycle, h⟩ := afterPart_valid h
  refine ⟨hcommit, hsnapshot, hlifecycle, ?_⟩
  split at h
  · cases h
  · rename_i hreviewed
    split at h
    · cases h
    · rename_i hcompleted
      exact ⟨by simpa using hreviewed, by simpa using hcompleted⟩

theorem validatePullRequest_valid {binding : EvidenceBinding} {raw : Json}
    {reviewed evidenceSha : String}
    (h : (validatePullRequest s binding raw reviewed evidenceSha).valid = true) :
    ∃ currentHead, (validateHead s binding raw reviewed evidenceSha currentHead).valid = true := by
  unfold validatePullRequest at h
  dsimp only at h
  split at h
  · cases h
  · split at h
    · cases h
    · split at h
      · cases h
      · split at h
        · cases h
        · exact ⟨_, h⟩

theorem validateRecord_valid {binding : EvidenceBinding} {raw : Json}
    (h : (validateRecord s binding raw).valid = true) :
    ∃ reviewed evidenceSha, raw.get "reviewed_commit_sha" = .str reviewed ∧
      (raw.get "evidence").get "commit_sha" = .str evidenceSha ∧
      (validatePullRequest s binding raw reviewed evidenceSha).valid = true := by
  unfold validateRecord at h
  dsimp only at h
  split at h
  · cases h
  · split at h
    · cases h
    · rename_i reviewed hreviewed
      split at h
      · cases h
      · split at h
        · cases h
        · rename_i evidenceSha hevidence
          split at h
          · cases h
          · exact ⟨reviewed, evidenceSha, str?_eq_some hreviewed, str?_eq_some hevidence, h⟩

/-- The first reading of the metadata and the record. -/
theorem validateAdvisorOpinion_valid (h : (validateAdvisorOpinion s).valid = true) :
    ∃ binding raw, s.record = .ok raw ∧ (validateRecord s binding raw).valid = true := by
  unfold validateAdvisorOpinion at h
  dsimp only at h
  split at h
  · cases h
  · split at h
    · cases h
    · rename_i binding _
      split at h
      · cases h
      · cases h
      · rename_i raw hraw
        exact ⟨binding, raw, hraw, h⟩

/-- A valid opinion is about the current code, whatever was asked for in between. -/
theorem valid_opinion_current (h : (validateAdvisorOpinion s).valid = true) :
    ∃ raw metadata binding evidenceSha, s.record = .ok raw ∧
      (raw.get "evidence").get "commit_sha" = .str evidenceSha ∧ s.thirdMetadata = .ok metadata ∧
      parseEvidenceBinding metadata = .ok binding ∧ Current s raw binding evidenceSha := by
  obtain ⟨first, raw, hrecord, h⟩ := validateAdvisorOpinion_valid h
  obtain ⟨reviewed, evidenceSha, hreviewed, hevidence, h⟩ := validateRecord_valid h
  obtain ⟨currentHead, h⟩ := validatePullRequest_valid h
  obtain ⟨hcommit, hsnapshot, hlifecycle, hequal, hcompleted⟩ := validateHead_valid h
  obtain ⟨commit, hfound, hparents⟩ := evidenceCommit_ok hcommit
  obtain ⟨verified, metadata, hverified, hcommitted, hsupplied, hsame⟩ := snapshot_ok hsnapshot
  obtain ⟨hfiles, committed, binding, pr, ci, hread, hparsed, hnumber, hcode, hpr, hhead, hci,
    hrun⟩ := verifyEvidenceHead_ok hverified
  obtain rfl : committed = metadata := Except.ok.inj (hread.symm.trans hcommitted)
  have hcodes : binding.codeCommitSha = first.codeCommitSha := hcode.symm.trans hsame
  rw [← hcodes] at hparents hequal
  obtain ⟨before, hbefore, hagree⟩ := agree_of_checkFiles hfound hparents hfiles
  obtain ⟨hdetached, hworkspace, hgone⟩ := validateWorkspaceLifecycle_ok hlifecycle
  have hrun := check_ok hrun
  simp only [Bool.and_eq_true, decide_eq_true_eq] at hrun
  obtain ⟨⟨⟨hid, hcommitSha⟩, hstatus⟩, hconclusion⟩ := hrun
  simp only [runCompleted, Bool.and_eq_true, decide_eq_true_eq] at hcompleted
  obtain ⟨⟨hreported, hexit⟩, hcleaned⟩ := hcompleted
  rw [← hcodes] at hworkspace
  refine ⟨raw, committed, binding, evidenceSha, hrecord, hevidence, hsupplied, hparsed, ?_, ?_, ?_,
    ?_⟩
  · exact ⟨pr, hnumber ▸ hpr, hhead⟩
  · exact ⟨commit, before, hfound, hparents, hbefore, hnumber ▸ hagree⟩
  · exact ⟨ci, hci, hid, hcommitSha, hstatus, hconclusion⟩
  · exact ⟨hequal ▸ hreviewed, hreported, hexit, hcleaned, hdetached, hworkspace, hgone⟩

end Opinion

end ProductPdfQr.Ao
