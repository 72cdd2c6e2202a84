/-
# The review gate

`evaluateReviewGate` translates `evaluate_review_gate` and what it calls.  The facts come from
four reads of GitHub (the pull request, twice; its commits; its reviews; the jobs and the
compare evidence of one commit), each of which may fail, so `ReviewGateData` is a record of
what they answer.  Times are microseconds of an aware clock: the parser of the answers lets no
other through, and `now` is the only one that the gate itself asks.
-/
import ProductPdfQr.ReviewGate.Verdict
import Mathlib.Data.Finset.Sort
import Mathlib.Data.List.MinMax
import Mathlib.Data.Prod.Lex
import Mathlib.Data.String.Basic

namespace ProductPdfQr.ReviewGate

/-- The order of pairs, with the order of the integers that computes. -/
instance pairOrder : LinearOrder (Int ×ₗ Int) :=
  @Prod.Lex.instLinearOrder Int Int Int.instLinearOrder Int.instLinearOrder

instance pairPreorder : Preorder (Int ×ₗ Int) := pairOrder.toPreorder

/-- `ReviewGateError`. -/
structure ReviewGateError where
  message : String
  deriving DecidableEq, Repr

abbrev Gate := Except ReviewGateError

def refuse {α : Type} (message : String) : Gate α := .error ⟨message⟩

def require (c : Bool) (message : String) : Gate Unit := if c then .ok () else refuse message

theorem require_ok {c : Bool} {message : String} {u : Unit} :
    require c message = .ok u ↔ c = true := by
  cases c <;> simp [require, refuse]

theorem bind_eq_ok {α β : Type} {x : Gate α} {f : α → Gate β} {b : β} :
    (x >>= f) = .ok b ↔ ∃ a, x = .ok a ∧ f a = .ok b := by
  cases x with
  | error e => simp [bind, Except.bind]
  | ok a => simp [bind, Except.bind]

/-! ## 1. The facts -/

structure ReviewPullRequest where
  number : Nat
  baseSha : String
  headSha : String
  deriving DecidableEq, Repr

structure ReviewFile where
  filename : String
  status : String
  previousFilename : Option String
  deriving DecidableEq, Repr

/-- The path and, of a renamed file, the path before it. -/
def ReviewFile.paths (f : ReviewFile) : List String :=
  match f.previousFilename with
  | none => [f.filename]
  | some previous => [previous, f.filename]

structure ReviewCommit where
  sha : String
  parentSha : String
  treeSha : String
  parentTreeSha : String
  files : List ReviewFile
  deriving DecidableEq, Repr

structure ReviewRecord where
  reviewId : Int
  commitId : String
  state : String
  body : String
  submittedAt : Int
  authorId : Int
  authorLogin : String
  deriving DecidableEq, Repr

structure CIObservation where
  state : String
  deriving DecidableEq, Repr

structure CumulativeEvidence where
  baseSha : String
  finalSha : String
  attestedSha : String
  attestedParentSha : Option String
  mergeBaseSha : String
  changedPaths : List String
  state : String
  source : String
  observedAt : Int
  observationId : Int
  issuerKind : String
  issuerId : Int
  complete : Bool
  commitCount : Int
  deriving DecidableEq, Repr

/-- `GITHUB_ACTIONS_APP_ID`. -/
def githubActionsAppId : Int := 15368

/-- `GITHUB_ACTIONS_BOT_ID`. -/
def githubActionsBotId : Int := 41898282

def CumulativeEvidence.trusted (e : CumulativeEvidence) : Bool :=
  (e.source = "github-compare" && e.issuerKind = "github-server" && e.issuerId = 0) ||
    (e.source = "evidence-check" && e.issuerKind = "github-app" &&
      e.issuerId = githubActionsAppId) ||
    (e.source = "evidence-status" && e.issuerKind = "github-user" &&
      e.issuerId = githubActionsBotId)

/-- `REQUIRED_CI_JOBS`. -/
def requiredCiJobs : Finset String := {"quality", "database", "container"}

/-- `EVIDENCE_PREFIX`. -/
def evidenceRoot : String := "docs/evidence/"

/-! ## 2. Classification -/

/-- What a commit is taken for. -/
inductive Classification
  | noop
  | metadata
  | code
  deriving DecidableEq, Repr

namespace ReviewCommit

def paths (c : ReviewCommit) : List String := c.files.flatMap ReviewFile.paths

def classification (c : ReviewCommit) : Gate Classification :=
  if c.treeSha = c.parentTreeSha then
    if c.files = [] then .ok .noop
    else refuse s!"commit {c.sha} has an unchanged tree but reports changed files"
  else if c.files = [] then
    refuse s!"commit {c.sha} changes its Git tree but returned no changed files"
  else if c.files.all fun f => f.paths.all fun path => Text.startsWith path evidenceRoot then
    .ok .metadata
  else .ok .code

/-- How the files are shown. -/
def rendered (c : ReviewCommit) : String :=
  ", ".intercalate (c.files.map fun f =>
    match f.previousFilename with
    | some previous => s!"{previous} -> {f.filename}"
    | none => f.filename)

/-- `reason`, of a commit that was classified. -/
def reason (c : ReviewCommit) : Classification → String
  | .noop => s!"tree={c.treeSha} equals parent_tree={c.parentTreeSha}"
  | .metadata => s!"all new and previous paths are evidence paths: {c.rendered}"
  | .code => s!"contains a non-evidence new or previous path: {c.rendered}"

end ReviewCommit

/-! ## 3. The chain -/

/-- `FULL_SHA`. -/
abbrev isFullSha (s : String) : Bool := Text.isHex 40 s

/-- The check of one commit of the chain: the commits before it gave `seen`, and `before` is
the last of them. -/
def checkLink (pullRequest : ReviewPullRequest) (seen : List String)
    (before : Option ReviewCommit) (commit : ReviewCommit) : Gate Unit := do
  require (isFullSha commit.sha) "commit SHA is not a full lowercase commit SHA"
  require (isFullSha commit.parentSha) "parent SHA is not a full lowercase commit SHA"
  require (isFullSha commit.treeSha) "tree SHA is not a full lowercase commit SHA"
  require (isFullSha commit.parentTreeSha) "parent tree SHA is not a full lowercase commit SHA"
  require (!seen.contains commit.sha)
    s!"PR #{pullRequest.number} contains duplicate SHA {commit.sha}"
  require (before.all fun previous => commit.parentSha = previous.sha)
    s!"PR #{pullRequest.number} commit chain is not contiguous at {commit.sha}"
  require (before.all fun previous => commit.parentTreeSha = previous.treeSha)
    s!"PR #{pullRequest.number} parent tree is inconsistent at {commit.sha}"

/-- The loop of `_validate_current_chain`. -/
def checkLinks (pullRequest : ReviewPullRequest) :
    List String → Option ReviewCommit → List ReviewCommit → Gate Unit
  | _, _, [] => .ok ()
  | seen, before, commit :: commits => do
    checkLink pullRequest seen before commit
    checkLinks pullRequest (commit.sha :: seen) (some commit) commits

/-- `_validate_current_chain`. -/
def validateCurrentChain (pullRequest : ReviewPullRequest) (commits : List ReviewCommit) :
    Gate Unit := do
  match commits.getLast? with
  | none => refuse s!"PR #{pullRequest.number} has no commits"
  | some last => do
    checkLinks pullRequest [] none commits
    require (last.sha = pullRequest.headSha)
      (s!"PR #{pullRequest.number} commit list ends at {last.sha}, " ++
        s!"but GitHub reports head {pullRequest.headSha}")

/-! ## 4. Cumulative evidence -/

/-- The later of two observations is the one with the greater pair of time and number. -/
def CumulativeEvidence.key (e : CumulativeEvidence) : Int ×ₗ Int :=
  toLex (e.observedAt, e.observationId)

/-- Trusted, and bound to exactly this base and this commit. -/
def CumulativeEvidence.exact (pullRequest : ReviewPullRequest) (finalSha : String)
    (e : CumulativeEvidence) : Bool :=
  e.trusted && e.baseSha = pullRequest.baseSha && e.finalSha = finalSha &&
    (e.attestedSha = finalSha ||
      (e.attestedSha = pullRequest.headSha && e.attestedParentSha = some finalSha))

/-- `_validate_cumulative_observation`. -/
def validateCumulativeObservation (observation : CumulativeEvidence)
    (commits : List ReviewCommit) (finalSha label : String) : Gate (Option String) := do
  if observation.state ≠ "success" then
    return some s!"{label} is {observation.state}, not success"
  else if observation.complete = false then
    return some s!"{label} is marked incomplete"
  else do
    let parent := (commits.head?.map ReviewCommit.parentSha).getD ""
    require (observation.mergeBaseSha = parent)
      (s!"{label} merge base {observation.mergeBaseSha} " ++
        s!"does not match current chain parent {parent}")
    let expectedCommitCount := commits.findIdx (fun commit => commit.sha = finalSha) + 1
    require (observation.commitCount = expectedCommitCount)
      (s!"{label} covers {observation.commitCount} commits, " ++
        s!"but current chain through final contains {expectedCommitCount}")
    return none

/-- What one file of a code commit does to the paths that the pull request introduced. -/
def introduce (introduced : Finset String) (f : ReviewFile) : Finset String :=
  if f.status = "added" || f.status = "copied" then insert f.filename introduced
  else if f.status = "removed" then introduced.erase f.filename
  else match f.previousFilename with
    | some previous =>
      if f.status = "renamed" ∧ previous ∈ introduced then
        insert f.filename (introduced.erase previous)
      else introduced
    | none => introduced

/-- `_persistent_introduced_paths`. -/
def persistentIntroducedPaths (finalSha : String) :
    Finset String → List (ReviewCommit × Classification) → Finset String
  | introduced, [] => introduced
  | introduced, (commit, classification) :: rest =>
    let now := if classification = .code then commit.files.foldl introduce introduced
      else introduced
    if commit.sha = finalSha then now else persistentIntroducedPaths finalSha now rest

/-- `_validate_cumulative_evidence`: what is missing, or none. -/
def validateCumulativeEvidence (observations : List CumulativeEvidence)
    (pullRequest : ReviewPullRequest) (classified : List (ReviewCommit × Classification))
    (finalSha : String) : Gate (Option String) := do
  let commits := classified.map Prod.fst
  let exactly := observations.filter (CumulativeEvidence.exact pullRequest finalSha)
  match exactly.argmax CumulativeEvidence.key with
  | none =>
    return some (s!"final code commit {finalSha} lacks trusted cumulative " ++
      s!"{pullRequest.baseSha}...{finalSha} review input evidence")
  | some selected => do
    match (exactly.filter (·.source = "github-compare")).argmax CumulativeEvidence.key with
    | none =>
      return some ("trusted cumulative review input lacks authoritative GitHub Compare " ++
        "corroboration for the exact base/final")
    | some authoritative => do
      let authoritativeGap ← validateCumulativeObservation authoritative commits finalSha
        "authoritative GitHub Compare"
      if authoritativeGap.isSome then return authoritativeGap
      else do
        let missingPaths := persistentIntroducedPaths finalSha ∅ classified \
          authoritative.changedPaths.toFinset
        if missingPaths.Nonempty then
          return some ("authoritative GitHub Compare omits CODE paths introduced and retained " ++
            "in the final tree: " ++ ", ".intercalate (missingPaths.sort))
        else do
          let selectedGap ← validateCumulativeObservation selected commits finalSha
            "latest trusted cumulative review input"
          if selectedGap.isSome then return selectedGap
          else if selected.source ≠ "github-compare" ∧
              selected.changedPaths.toFinset ≠ authoritative.changedPaths.toFinset then
            return some (s!"latest trusted cumulative review input from {selected.source} does " ++
              "not match the authoritative GitHub Compare net changed-path set")
          else return none

/-! ## 5. Verdicts -/

/-- The later of two reviews is the one with the greater pair of time and number. -/
def ReviewRecord.key (r : ReviewRecord) : Int ×ₗ Int := toLex (r.submittedAt, r.reviewId)

/-- Neither dismissed nor pending. -/
def ReviewRecord.submitted (r : ReviewRecord) : Bool :=
  r.state ≠ "DISMISSED" && r.state ≠ "PENDING"

/-- `STALL_THRESHOLD`. -/
def stallThreshold : Int := 30 * 60 * 1000000

/-- `_final_verdict`: the verdict, what is missing, and whether the review stalls. -/
def finalVerdict (reviews : List ReviewRecord) (sha : String) (trustedIds : List Int)
    (currentTime : Int) : Verdict × Option String × Bool :=
  let anchored := reviews.filter (·.commitId = sha)
  let submitted := anchored.filter ReviewRecord.submitted
  let trusted := submitted.filter fun r => trustedIds.contains r.authorId
  if anchored = [] then
    (.missing, some "missing anchored review with commit_id exactly equal to final sha", false)
  else if submitted = [] then
    (.missing, some "final anchored reviews are dismissed or pending", false)
  else match trusted.argmax ReviewRecord.key with
    | none =>
      let authors := (submitted.map fun r => s!"{r.authorLogin} (id={r.authorId})").toFinset
      (.untrusted, some ("final anchored reviews are not from a trusted reviewer: " ++
        ", ".intercalate (authors.sort)), false)
    | some latest =>
      match reviewVerdict latest.body with
      | none =>
        (.indeterminate, some ("final review verdict cannot be determined from the latest " ++
          "trusted anchored GitHub review body"), currentTime - latest.submittedAt > stallThreshold)
      | some verdict => (verdict, none, false)

/-- `_trusted_prior_verdict`. -/
def trustedPriorVerdict (reviews : List ReviewRecord) (sha : String) (trustedIds : List Int) :
    Verdict :=
  let trusted := reviews.filter fun r =>
    r.commitId = sha && trustedIds.contains r.authorId && r.submitted
  match trusted.argmax ReviewRecord.key with
  | none => .missing
  | some latest => (reviewVerdict latest.body).getD .missing

/-! ## 6. The gate -/

/-- How a commit is reported. -/
inductive Reported
  | exempt (classification : Classification)
  | superseded
  | codeFinal
  deriving DecidableEq, Repr

structure CommitGateResult where
  sha : String
  classification : Reported
  ciStatus : String
  verdict : Verdict
  priorVerdict : Verdict
  supersededBy : Option String
  reason : String
  gaps : List String
  stalled : Bool
  deriving DecidableEq, Repr

inductive Status
  | pass
  | reviewGap
  deriving DecidableEq, Repr

structure ReviewGateResult where
  prNumber : Nat
  status : Status
  finalCodeSha : Option String
  commits : List CommitGateResult
  deriving DecidableEq, Repr

/-- Which of the two reads of the pull request. -/
inductive Moment
  | start
  | finish
  deriving DecidableEq, Repr

/-- What the reads of GitHub answer.  The jobs of a commit are the pairs of a mapping. -/
structure ReviewGateData where
  repositoryOwnerId : Gate Int
  pullRequest : Moment → Nat → Gate ReviewPullRequest
  pullRequestCommits : Nat → Gate (List ReviewCommit)
  pullRequestReviews : Nat → Gate (List ReviewRecord)
  commitCi : String → Gate (List (String × CIObservation))
  cumulativeEvidence : Nat → String → String → Gate (List CumulativeEvidence)

/-- The clock the gate asks: what it shows, and whether it knows its zone. -/
structure Clock where
  time : Int
  aware : Bool

/-- `commit.sha` of the last code commit. -/
def finalCode (classified : List (ReviewCommit × Classification)) : Option String :=
  (classified.reverse.find? fun entry => entry.2 = .code).map fun entry => entry.1.sha

/-- The required jobs that were not observed. -/
def missingCi (ci : List (String × CIObservation)) : Finset String :=
  requiredCiJobs \ (ci.map Prod.fst).toFinset

/-- The required jobs, in the order of their names. -/
def sortedJobs : List String := requiredCiJobs.sort

/-- The observed jobs that are no success, with their states. -/
def failedCi (ci : List (String × CIObservation)) : List String :=
  ((ci.filter fun entry => entry.2.state ≠ "success").map fun entry =>
    entry.1 ++ "=" ++ (if entry.2.state = "" then "unknown" else entry.2.state)).mergeSort

/-- The report of a commit without code. -/
def exemptResult (commit : ReviewCommit) (classification : Classification) : CommitGateResult where
  sha := commit.sha
  classification := .exempt classification
  ciStatus := "exempt"
  verdict := .exempt
  priorVerdict := .missing
  supersededBy := none
  reason := commit.reason classification
  gaps := []
  stalled := false

/-- The report of a code commit that a later one replaces. -/
def supersededResult (commit : ReviewCommit) (prior : Verdict) (next : Option String) :
    CommitGateResult where
  sha := commit.sha
  classification := .superseded
  ciStatus := "exempt"
  verdict := .exempt
  priorVerdict := prior
  supersededBy := next
  reason := "replaced by the next CODE state; final cumulative approval accepts history"
  gaps := []
  stalled := false

/-- The report of the last code commit. -/
def finalResult (commit : ReviewCommit) (reviews : List ReviewRecord)
    (ci : List (String × CIObservation)) (evidenceGap : Option String) (trustedIds : List Int)
    (currentTime : Int) : CommitGateResult :=
  let missing := missingCi ci
  let failed := failedCi ci
  let (verdict, reviewGap, stalled) := finalVerdict reviews commit.sha trustedIds currentTime
  { sha := commit.sha
    classification := .codeFinal
    ciStatus := if missing = ∅ ∧ failed = [] then "success" else "gap"
    verdict := verdict
    priorVerdict := .missing
    supersededBy := none
    reason := "last CODE commit in the validated current PR chain"
    gaps :=
      (if missing = ∅ then [] else
        ["missing required CI jobs: " ++ ", ".intercalate (missing.sort)]) ++
      (if failed = [] then [] else
        ["required CI jobs not successful: " ++ ", ".intercalate failed]) ++
      reviewGap.toList ++
      (if verdict = .approved then [] else
        [s!"final code commit verdict must be approved, got {verdict.text}"]) ++
      evidenceGap.toList
    stalled := stalled }

/-- The reports of the commits, in their order. -/
def gateResults (finalSha : Option String) (reviews : List ReviewRecord)
    (ci : List (String × CIObservation)) (evidenceGap : Option String) (trustedIds : List Int)
    (currentTime : Int) : List (ReviewCommit × Classification) → List CommitGateResult
  | [] => []
  | (commit, classification) :: rest =>
    (if classification ≠ .code then exemptResult commit classification
      else if some commit.sha ≠ finalSha then
        supersededResult commit (trustedPriorVerdict reviews commit.sha trustedIds)
          ((rest.find? fun entry => entry.2 = .code).map fun entry => entry.1.sha)
      else finalResult commit reviews ci evidenceGap trustedIds currentTime) ::
      gateResults finalSha reviews ci evidenceGap trustedIds currentTime rest

/-- What is read about the last code commit, where there is one: the reviews, the jobs, and
what is missing of the evidence. -/
def readFinal (prNumber : Nat) (github : ReviewGateData) (pullRequest : ReviewPullRequest)
    (classified : List (ReviewCommit × Classification)) :
    Gate (List ReviewRecord × List (String × CIObservation) × Option String) := do
  match finalCode classified with
  | none => return ([], [], none)
  | some finalSha => do
    let reviews ← github.pullRequestReviews prNumber
    let ci ← github.commitCi finalSha
    let evidence ← github.cumulativeEvidence prNumber pullRequest.baseSha finalSha
    let evidenceGap ← validateCumulativeEvidence evidence pullRequest classified finalSha
    return (reviews, ci, evidenceGap)

/-- `trusted_ids`: those that were given, or the owner of the repository. -/
def trustedIds (github : ReviewGateData) : Option (List Int) → Gate (List Int)
  | some ids => .ok ids
  | none => do
    let owner ← github.repositoryOwnerId
    return [owner]

/-- `evaluate_review_gate`. -/
def evaluateReviewGate (prNumber : Nat) (github : ReviewGateData)
    (trustedReviewerIds : Option (List Int)) (now : Clock) : Gate ReviewGateResult := do
  let trustedIds ← trustedIds github trustedReviewerIds
  require (trustedIds ≠ []) "at least one trusted reviewer ID is required"
  let initial ← github.pullRequest .start prNumber
  let commits ← github.pullRequestCommits prNumber
  validateCurrentChain initial commits
  let classifications ← commits.mapM ReviewCommit.classification
  let classified := commits.zip classifications
  require now.aware "review-gate clock must be timezone-aware"
  let (reviews, ci, evidenceGap) ← readFinal prNumber github initial classified
  let results := gateResults (finalCode classified) reviews ci evidenceGap trustedIds now.time
    classified
  let final ← github.pullRequest .finish prNumber
  require (final.headSha = initial.headSha && final.baseSha = initial.baseSha)
    (s!"PR #{prNumber} changed while review-gate was reading evidence " ++
      s!"(start base/head={initial.baseSha}/{initial.headSha}, " ++
      s!"end={final.baseSha}/{final.headSha})")
  return {
    prNumber := prNumber
    status := if results.any (fun result => result.gaps ≠ []) then .reviewGap else .pass
    finalCodeSha := finalCode classified
    commits := results }

end ProductPdfQr.ReviewGate
