/-
# The verification of an evidence commit

`verifyEvidenceHead` reads a checkout of the evidence commit, the repository it belongs to and
the records of GitHub, and renders the five files again.  What each of these answers is given to
it: a `View` of the repository and the `GitHubData` at that time.
-/
import ProductPdfQr.Ao.Replacement
import ProductPdfQr.Ao.Snapshot

namespace ProductPdfQr.Ao

open Text

/-! ## 1. What is asked -/

/-- `GitHubData`. -/
structure GitHubData where
  pullRequest : Int → Except EvidenceError PullRequest
  successfulCiRun : String → Option Int → Except EvidenceError CIRun
  reviewEvidence : Int → String → Except EvidenceError ReviewEvidence
  evidenceAttestation : String → String → Except EvidenceError EvidenceAttestation

/-- A checkout of the evidence commit and its repository, after the fetch. -/
structure View where
  head : String
  /-- The directory of the evidence is one, and not a link. -/
  realDirectory : Bool
  /-- `git diff-tree --root --no-commit-id --name-only -r`. -/
  diffTree : Except EvidenceError String
  /-- An entry of the directory is a regular file. -/
  regular : String → Bool
  readText : String → Except EvidenceError String
  /-- `git rev-parse <commit>^`. -/
  parent : Except EvidenceError String
  /-- `git rev-parse origin/<branch>`. -/
  remoteHead : String → Except EvidenceError String
  /-- What Git says of a commit compared with a target branch. -/
  comparison : (targetBranch commit : String) → Except EvidenceError Comparison
  ciDefinition : (commit targetBranch : String) → Except EvidenceError CIDefinitionComparison

/-- The directory of a pull request's evidence. -/
def evidenceDirectory (prNumber : Int) : String := "docs/evidence/pr-" ++ toString prNumber

def evidenceStatusContext : String := "AO / evidence-snapshot"

structure VerifiedEvidenceHead where
  evidenceCommitSha : String
  codeCommitSha : String
  ciRunId : Int
  ciUrl : Url
  priorAttestation : Bool
  ciDefinitionStatus : String
  trustedCiDefinitionHash : String
  candidateCiDefinitionHash : String
  deriving DecidableEq, Repr

/-- `if not c: raise EvidenceError`. -/
def check (c : Bool) (what : String) : Except EvidenceError Unit :=
  if c then .ok () else .error (.refused what)

/-- `https://github.com/<repository>/actions/runs/[1-9][0-9]*`. -/
def isRunUrl (repository url : String) : Bool :=
  let start := ("https://github.com/" ++ repository ++ "/actions/runs/").toList
  start.isPrefixOf url.toList &&
    match url.toList.drop start.length with
    | [] => false
    | d :: digits => d.isDigit && d ≠ '0' && digits.all (·.isDigit)

/-- The attestation is the publisher's, for this commit. -/
def attests (attestation : EvidenceAttestation) (pr : PullRequest) (binding : EvidenceBinding) :
    Bool :=
  attestation.context = evidenceStatusContext && attestation.state = "success" &&
    attestation.creatorId = 41898282 && attestation.creatorLogin = "github-actions[bot]" &&
    attestation.creatorType = "Bot" &&
    attestation.description = "Evidence-only child of " ++
      String.ofList (binding.codeCommitSha.toList.take 12) ++ "; source CI " ++
        toString binding.ciRunId &&
    isRunUrl pr.repository attestation.targetUrl

/-! ## 2. The verification -/

/-- The paths below which the five files are. -/
def evidencePaths (prNumber : Int) : List String :=
  evidenceFiles.map fun name => evidenceDirectory prNumber ++ "/" ++ name

/-- The commit changes the five files and nothing else, and they are files. -/
def checkFiles (view : View) (prNumber : Int) (evidenceSha : String) :
    Except EvidenceError Unit := do
  check (isFullSha evidenceSha) "Evidence commit SHA must be a full lowercase SHA"
  check (view.head = evidenceSha) "candidate HEAD does not equal Evidence commit"
  check view.realDirectory "Evidence directory must be a real directory inside the repository"
  let expectedPaths := evidencePaths prNumber
  let diffTree ← view.diffTree
  let actualPaths := (lines diffTree).filter fun path => path ≠ ""
  check (actualPaths.all expectedPaths.contains && expectedPaths.all actualPaths.contains)
    "Evidence head must change exactly the five files"
  check (evidenceFiles.all view.regular) "Evidence entry must be a regular file"

/-- The pull request and its branches are those of the binding, and at the evidence commit. -/
def checkPullRequest (view : View) (pr : PullRequest) (binding : EvidenceBinding)
    (evidenceSha : String) : Except EvidenceError Unit := do
  check (pr.number = binding.prNumber && pr.sourceBranch = binding.sourceBranch &&
      pr.targetBranch = binding.targetBranch)
    "current PR identity or branches do not match Evidence metadata"
  check (pr.headSha = evidenceSha) "current PR head does not equal Evidence commit"
  let remoteHead ← view.remoteHead pr.sourceBranch
  check (strip remoteHead = evidenceSha) "remote PR branch is not the verified Evidence commit"

/-- The run that the binding names is that of the code commit, completed and successful. -/
def checkRun (ci : CIRun) (binding : EvidenceBinding) : Except EvidenceError Unit :=
  check (ci.runId = binding.ciRunId && ci.commitSha = binding.codeCommitSha &&
      ci.status = "completed" && ci.conclusion = "success")
    "Evidence metadata does not bind an exact completed successful CI run"

/-- The URLs recorded are among the current ones. -/
def checkReviews (recorded current : ReviewEvidence) : Except EvidenceError Unit :=
  check (recorded.lineCommentUrls.all current.lineCommentUrls.contains &&
      recorded.reviewUrls.all current.reviewUrls.contains)
    "Evidence validation.md contains review URLs not present in GitHub's current PR records"

/-- What the numbers and lists of the files are made from. -/
structure Facts where
  mergeBase : String
  files : List ChangedFile
  additions : Nat
  deletions : Nat
  commits : List (String × String)
  deriving DecidableEq, Repr

/-- The answers of Git, parsed. -/
def factsOf (comparison : Comparison) : Except EvidenceError Facts :=
  match parseNameStatus comparison.nameStatus with
  | none => .error (.refused "name-status")
  | some files =>
    let (additions, deletions) := parseNumstat comparison.numstat
    .ok
      { mergeBase := strip comparison.mergeBase
        files, additions, deletions
        commits := parseCommits comparison.log }

variable {Time : Type} [IsoTime Time]

/-- The binding and the time that `metadata.md` records. -/
def readBinding (view : View) (prNumber : Int) :
    Except EvidenceError (String × EvidenceBinding × Time) := do
  let metadata ← view.readText "metadata.md"
  let binding ← parseEvidenceBinding metadata
  let createdAt ← metadataCreatedAt metadata
  check (binding.prNumber = prNumber) "Evidence metadata binds another PR"
  let parent ← view.parent
  check (strip parent = binding.codeCommitSha) "Evidence parent does not equal bound code commit"
  pure (metadata, binding, createdAt)

/-- The files other than `validation.md` are those that would be rendered now. -/
def checkRendered (view : View) (metadata : String) (pr : PullRequest) (ci : CIRun) (facts : Facts)
    (patch : String) (ciDefinition : CIDefinitionComparison) (createdAt : Time) :
    Except EvidenceError Unit := do
  check (metadata = metadataMarkdown pr ci facts.mergeBase facts.files facts.additions
      facts.deletions facts.commits ciDefinition createdAt)
    "Evidence metadata.md is incomplete or does not match"
  let changedFiles ← view.readText "changed-files.md"
  check (changedFiles = changedFilesMarkdown pr facts.mergeBase facts.files facts.additions
      facts.deletions)
    "Evidence changed-files.md does not match"
  let diff ← view.readText "diff.patch"
  check (diff = patch) "Evidence diff.patch does not match the bound three-dot code diff"

/-- `validation.md` and `advisor-context.md` are, with the reviews that the former records. -/
def checkRecords (view : View) (github : GitHubData) (pr codePr : PullRequest) (ci : CIRun)
    (mergeBase : String) (createdAt : Time) : Except EvidenceError Unit := do
  let validation ← view.readText "validation.md"
  let recorded ← validationReviewEvidence validation codePr
  let current ← github.reviewEvidence pr.number pr.reviewDecision
  checkReviews recorded current
  check (validation = validationMarkdown codePr ci recorded mergeBase createdAt)
    "Evidence validation.md does not match"
  let context ← view.readText "advisor-context.md"
  check (context = advisorContextMarkdown codePr) "Evidence advisor-context.md does not match"

/-- The publisher has attested the commit before. -/
def checkAttestation (github : GitHubData) (pr : PullRequest) (binding : EvidenceBinding)
    (evidenceSha ciDefinitionStatus : String) : Except EvidenceError Unit := do
  check (ciDefinitionStatus = "trusted")
    "Evidence skip path is blocked because the CI definition changed"
  let attestation ← github.evidenceAttestation evidenceSha evidenceStatusContext
  check (attests attestation pr binding) "Evidence skip path attestation does not match"

/-- `verify_evidence_head`. -/
def verifyEvidenceHead (Time : Type) [IsoTime Time] (view : View) (github : GitHubData)
    (prNumber : Int) (evidenceSha : String) (requirePriorAttestation : Bool)
    (trustedCiDefinitionHash : Option String) : Except EvidenceError VerifiedEvidenceHead := do
  checkFiles view prNumber evidenceSha
  let (metadata, binding, createdAt) ←
    (readBinding view prNumber : Except EvidenceError (String × EvidenceBinding × Time))
  let pr ← github.pullRequest prNumber
  checkPullRequest view pr binding evidenceSha
  let ci ← github.successfulCiRun binding.codeCommitSha (some binding.ciRunId)
  checkRun ci binding
  let codePr := { pr with headSha := binding.codeCommitSha }
  let comparison ← view.comparison binding.targetBranch binding.codeCommitSha
  let facts ← factsOf comparison
  let ciDefinition ← view.ciDefinition binding.codeCommitSha binding.targetBranch
  check (trustedCiDefinitionHash.all fun hash => hash = ciDefinition.trustedDefinitionHash)
    "trusted checkout CI definition hash does not match fetched default branch"
  checkRendered view metadata codePr ci facts comparison.patch ciDefinition createdAt
  checkRecords view github pr codePr ci facts.mergeBase createdAt
  if requirePriorAttestation then
    checkAttestation github pr binding evidenceSha ciDefinition.status
  pure
    { evidenceCommitSha := evidenceSha
      codeCommitSha := binding.codeCommitSha
      ciRunId := binding.ciRunId
      ciUrl := ci.url
      priorAttestation := requirePriorAttestation
      ciDefinitionStatus := ciDefinition.status
      trustedCiDefinitionHash := ciDefinition.trustedDefinitionHash
      candidateCiDefinitionHash := ciDefinition.candidateDefinitionHash }

end ProductPdfQr.Ao
